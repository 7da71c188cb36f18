import AtMostOnce.Proofs.Memo.Ledger
import AtMostOnce.Proofs.WriteOrder

/-! The ledger of a memory. As long as the order of writes records just the outcomes in the slots,
every operation does to the ledger what the ledger's own operation does. -/
namespace AtMostOnce

def Slot.claim? {V M : Type} : Slot V M → Option (Nat × M)
  | .claimed g marker => some (g, marker)
  | .committed _ => none

namespace Memo
variable {V M : Type}

/-- The outcome that a write has left. -/
def writtenAs (m : Memo V M) (r : Nat × RequestId) : Option (Written V) :=
  (m.entryOf? r.2 r.1).map fun e => ⟨r.2, e.outcome, e.writtenAt⟩

/-- What a memory holds, put down plainly. -/
def ledger (m : Memo V M) : Ledger V M where
  maxSize := m.maxSize
  ttl := m.ttl
  written := m.order.records.filterMap m.writtenAs
  claims := m.slots.filterMap Slot.claim?
  nextGeneration := m.nextGeneration
  evictions := m.evictions
  expirations := m.expirations

/-- The order of writes records the outcomes in the slots and nothing else. -/
structure Sound (m : Memo V M) : Prop where
  bounded : ∀ r ∈ m.order.records, r.1 < m.order.next
  recorded : ∀ seq id, (seq, id) ∈ m.order.records ↔ ∃ e, m.entryOf? id seq = some e

theorem entryOf?_eq_some_iff (m : Memo V M) (id : RequestId) (seq : Nat) (e : Entry V) :
    m.entryOf? id seq = some e ↔ m.slots.find? id = some (.committed e) ∧ e.seq = seq := by
  unfold entryOf?
  split
  · rename_i e' h
    rw [h]
    constructor
    · intro he
      split at he
      · cases he
        exact ⟨rfl, ‹_›⟩
      · cases he
    · intro hx
      obtain ⟨he, rfl⟩ := hx
      cases he
      rw [if_pos rfl]
  · rename_i h
    constructor
    · intro he
      cases he
    · intro hx
      obtain ⟨he, _⟩ := hx
      exact absurd he (h e)

theorem entryOf?_congr {m m' : Memo V M} {id : RequestId}
    (h : m'.slots.find? id = m.slots.find? id) (seq : Nat) :
    m'.entryOf? id seq = m.entryOf? id seq := by
  unfold entryOf?
  rw [h]

theorem writtenAs_congr {m m' : Memo V M} {r : Nat × RequestId}
    (h : m'.slots.find? r.2 = m.slots.find? r.2) : m'.writtenAs r = m.writtenAs r := by
  unfold writtenAs
  rw [entryOf?_congr h]

theorem find?_claims (m : Memo V M) (id : RequestId) :
    m.ledger.claims.find? id = (m.slots.find? id).bind Slot.claim? := Table.find?_filterMap _ _ _

theorem find?_claims_eq_some_iff (m : Memo V M) (id : RequestId) (g : Nat) (marker : M) :
    m.ledger.claims.find? id = some (g, marker) ↔
      m.slots.find? id = some (.claimed g marker) := by
  rw [find?_claims, Option.bind_eq_some_iff]
  constructor
  · intro hx
    obtain ⟨_ | _, hs, hc⟩ := hx
    · cases hc
      exact hs
    · cases hc
  · intro hs
    exact ⟨_, hs, rfl⟩

theorem isClaimedBy_ledger (m : Memo V M) (id : RequestId) (g : Nat) :
    m.ledger.isClaimedBy id g = m.isClaimedBy id g := by
  unfold Ledger.isClaimedBy isClaimedBy
  rw [find?_claims]
  rcases m.slots.find? id with _ | _ | _ <;> rfl

theorem inFlight_eq_size (m : Memo V M) : m.inFlight = m.ledger.claims.size := by
  rw [ledger, ← Table.count_isSome]
  unfold inFlight
  congr 1
  funext s
  cases s <;> rfl

theorem sound_new (maxSize ttl : Nat) : ({ maxSize := maxSize, ttl := ttl } : Memo V M).Sound where
  bounded := nofun
  recorded seq id := by simp [WriteOrder.records, OrderedTable.empty, entryOf?]

namespace Sound
variable {m : Memo V M}

theorem seq_unique (h : m.Sound) {seq seq' : Nat} {id : RequestId}
    (hr : (seq, id) ∈ m.order.records) (hr' : (seq', id) ∈ m.order.records) : seq = seq' := by
  obtain ⟨e, he⟩ := (h.recorded seq id).mp hr
  obtain ⟨e', he'⟩ := (h.recorded seq' id).mp hr'
  obtain ⟨hf, rfl⟩ := (m.entryOf?_eq_some_iff id seq e).mp he
  obtain ⟨hf', rfl⟩ := (m.entryOf?_eq_some_iff id seq' e').mp he'
  rw [hf] at hf'
  cases hf'
  rfl

theorem find?_of_record (h : m.Sound) {seq : Nat} {id : RequestId}
    (hr : (seq, id) ∈ m.order.records) :
    ∃ e, m.slots.find? id = some (.committed e) ∧ e.seq = seq := by
  obtain ⟨e, he⟩ := (h.recorded seq id).mp hr
  exact ⟨e, (m.entryOf?_eq_some_iff id seq e).mp he⟩

theorem record_of_find? (h : m.Sound) {id : RequestId} {e : Entry V}
    (hf : m.slots.find? id = some (.committed e)) : (e.seq, id) ∈ m.order.records :=
  (h.recorded e.seq id).mpr ⟨e, (m.entryOf?_eq_some_iff id e.seq e).mpr ⟨hf, rfl⟩⟩

theorem mem_written_iff (h : m.Sound) (w : Written V) :
    w ∈ m.ledger.written ↔ ∃ seq, m.slots.find? w.id =
      some (.committed ⟨w.outcome, w.writtenAt, seq⟩) := by
  show w ∈ m.order.records.filterMap m.writtenAs ↔ _
  rw [List.mem_filterMap]
  constructor
  · intro hx
    obtain ⟨⟨seq, id⟩, hr, hw⟩ := hx
    obtain ⟨e, he, rfl⟩ := Option.map_eq_some_iff.mp hw
    exact ⟨e.seq, ((m.entryOf?_eq_some_iff id seq e).mp he).1⟩
  · intro hx
    obtain ⟨seq, hf⟩ := hx
    refine ⟨(seq, w.id), h.record_of_find? hf, ?_⟩
    unfold writtenAs
    rw [(m.entryOf?_eq_some_iff _ _ _).mpr ⟨hf, rfl⟩]
    rfl

/-- No write is lost from the ledger. -/
theorem length_written (h : m.Sound) : m.ledger.written.length = m.size := by
  have hall : ∀ r ∈ m.order.records, (m.writtenAs r).isSome := by
    intro hx hr
    obtain ⟨seq, id⟩ := hx
    obtain ⟨e, he⟩ := (h.recorded seq id).mp hr
    unfold writtenAs
    rw [he]
    rfl
  show (m.order.records.filterMap m.writtenAs).length = m.order.records.length
  rw [List.length_filterMap_eq_countP, List.countP_eq_length]
  exact hall

end Sound

end Memo
end AtMostOnce
