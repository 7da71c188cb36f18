import AtMostOnce.Proofs.Memo.Room
import Mathlib.Data.List.Sort

/-! Purges. A purge goes through the writes from the oldest to the first live one, and since the
order of writes is the order of time it drops just the outcomes whose time is over. -/
namespace AtMostOnce
variable {V M : Type}

section
variable {α : Type} {p : α → Bool} {xs : List α}

/-- What holds of an element and so of all before it holds of a head of the list, and of nothing
after that. -/
theorem dropWhile_eq_filter (h : xs.Pairwise fun x y => p y = true → p x = true) :
    xs.dropWhile p = xs.filter fun x => !p x := by
  induction xs with
  | nil => rfl
  | cons x xs ih =>
    obtain ⟨first, rest⟩ := List.pairwise_cons.mp h
    cases hx : p x with
    | true => rw [List.dropWhile_cons_of_pos hx, List.filter_cons_of_neg (by simp [hx]), ih rest]
    | false =>
      have hall : ∀ y ∈ x :: xs, (!p y) = true := by
        intro y hy
        rcases List.mem_cons.mp hy with rfl | hy
        · simp [hx]
        · simpa [hx] using first y hy
      rw [List.dropWhile_cons_of_neg (by simp [hx]), List.filter_eq_self.mpr hall]

end

namespace Ledger
variable {l : Ledger V M} {now : Instant}

/-- If the time of an outcome is over, so is that of all written before it. -/
theorem Dated.expired_before (h : l.Dated now) (ttl : Nat) :
    l.written.Pairwise fun w w' => w'.isExpired ttl now = true → w.isExpired ttl now = true := by
  refine h.ordered.imp fun {w w'} hle hx => ?_
  have hage : now - w'.writtenAt ≤ now - w.writtenAt := Nat.sub_le_sub_left hle now
  exact decide_eq_true (Nat.le_trans (of_decide_eq_true hx) hage)

/-- A purge leaves the outcomes whose time is not over. -/
theorem Dated.written_purge (h : l.Dated now) :
    (l.purge now).2.written = l.written.filter fun w => !w.isExpired l.ttl now :=
  dropWhile_eq_filter (h.expired_before l.ttl)

theorem Dated.mem_written_purge (h : l.Dated now) (w : Written V) :
    w ∈ (l.purge now).2.written ↔ w ∈ l.written ∧ now - w.writtenAt < l.ttl := by
  rw [h.written_purge, List.mem_filter, Bool.not_eq_true', Written.isExpired,
    decide_eq_false_iff_not, Nat.not_le]

end Ledger

namespace Memo
variable {m : Memo V M} {now : Instant}

theorem next_purgeAll (now : Instant) (writes : List (Nat × RequestId)) (m : Memo V M) :
    (purgeAll now writes m).2.order.next = m.order.next := by
  induction writes generalizing m with
  | nil => rfl
  | cons r writes ih =>
    unfold purgeAll
    split
    · rw [ih, next_dropOldest]
    split
    · dsimp only
      rw [ih, next_dropOldest]
    · rfl

namespace Sound

/-- Of the outcomes those stay whose time is not over. -/
theorem find?_purge_eq_committed_iff (h : m.Sound) (hd : m.ledger.Dated now) (id : RequestId)
    (e : Entry V) : (m.purge now).2.slots.find? id = some (.committed e) ↔
      m.slots.find? id = some (.committed e) ∧ now - e.writtenAt < m.ttl := by
  obtain ⟨hs, hl⟩ := h.purge now
  have hview : (m.purge now).2.ledger.written = (m.ledger.purge now).2.written :=
    congrArg (fun r => r.2.written) hl.symm
  have hmem : ∀ w, w ∈ (m.purge now).2.ledger.written ↔
      w ∈ m.ledger.written ∧ now - w.writtenAt < m.ttl := by
    intro w
    rw [hview]
    exact hd.mem_written_purge w
  constructor
  · intro hf
    have hw := (hs.mem_written_iff ⟨id, e.outcome, e.writtenAt⟩).mpr ⟨e.seq, hf⟩
    exact ⟨purgeAll_find? now _ m id _ hf, ((hmem _).mp hw).2⟩
  · rintro ⟨hf, hage⟩
    have hw := (h.mem_written_iff ⟨id, e.outcome, e.writtenAt⟩).mpr ⟨e.seq, hf⟩
    obtain ⟨seq, hf'⟩ := (hs.mem_written_iff _).mp ((hmem _).mpr ⟨hw, hage⟩)
    -- A purge writes nothing, so it is the write that was there before.
    have hsame := purgeAll_find? now _ m id _ hf'
    rw [hf] at hsame
    rw [hf', hsame]

theorem find?_purge_eq_claimed_iff (h : m.Sound) (now : Instant) (id : RequestId) (g : Nat)
    (marker : M) : (m.purge now).2.slots.find? id = some (.claimed g marker) ↔
      m.slots.find? id = some (.claimed g marker) := by
  obtain ⟨-, hl⟩ := h.purge now
  have hclaims : (m.purge now).2.ledger.claims = m.ledger.claims :=
    congrArg (fun r => r.2.claims) hl.symm
  rw [← find?_claims_eq_some_iff, hclaims, find?_claims_eq_some_iff]

/-- The writes that stay are those of the outcomes that stay, in the order in which they were. -/
theorem records_purge (h : m.Sound) (hd : m.ledger.Dated now) :
    (m.purge now).2.order.records = m.order.records.filter fun r =>
      (m.entryOf? r.2 r.1).any fun e => now - e.writtenAt < m.ttl := by
  obtain ⟨hs, -⟩ := h.purge now
  have : Std.Irrefl fun r r' : Nat × RequestId => r.1 < r'.1 := ⟨fun r => Nat.lt_irrefl r.1⟩
  refine (m.purge now).2.order.increasing.eq_of_mem_iff (m.order.increasing.filter _) fun r => ?_
  obtain ⟨seq, id⟩ := r
  simp only [List.mem_filter, hs.recorded, h.recorded, entryOf?_eq_some_iff,
    h.find?_purge_eq_committed_iff hd, Option.any_eq_true, decide_eq_true_eq]
  constructor
  · rintro ⟨e, ⟨hf, hage⟩, hseq⟩
    exact ⟨⟨e, hf, hseq⟩, e, ⟨hf, hseq⟩, hage⟩
  · rintro ⟨-, e, ⟨hf, hseq⟩, hage⟩
    exact ⟨e, ⟨hf, hage⟩, hseq⟩

/-- What is dropped is counted, once. -/
theorem size_purge (h : m.Sound) (now : Instant) :
    (m.purge now).1 + (m.purge now).2.size = m.size := by
  obtain ⟨hs, hl⟩ := h.purge now
  have hlength := m.ledger.length_purge now
  rw [hl, hs.length_written, h.length_written] at hlength
  exact hlength

/-- A purge changes slots, writes and the count of what has expired, and nothing else. -/
theorem purge_eq (h : m.Sound) (hd : m.ledger.Dated now) :
    (m.purge now).2 = { m with
      slots := (m.purge now).2.slots
      order := { m.order with table := m.order.table.filter fun r =>
        (m.entryOf? r.2 r.1).any fun e => now - e.writtenAt < m.ttl }
      expirations := m.expirations + (m.purge now).1 } := by
  obtain ⟨-, hl⟩ := h.purge now
  have horder : (m.purge now).2.order = { m.order with
      table := m.order.table.filter fun r =>
        (m.entryOf? r.2 r.1).any fun e => now - e.writtenAt < m.ttl } :=
    WriteOrder.eq_of_records_eq (h.records_purge hd) (next_purgeAll now _ m)
  have hn : (m.ledger.purge now).1 = (m.purge now).1 := congrArg Prod.fst hl
  have hview : (m.purge now).2.ledger = (m.ledger.purge now).2 := congrArg Prod.snd hl.symm
  generalize m.purge now = r at horder hn hview ⊢
  obtain ⟨n, maxSize, ttl, slots, order, nextGeneration, evictions, expirations⟩ := r
  cases hn
  cases horder
  simp only [ledger, Ledger.purge, Ledger.mk.injEq] at hview
  obtain ⟨rfl, rfl, -, -, rfl, rfl, rfl⟩ := hview
  rfl

theorem inFlight_purge (h : m.Sound) (now : Instant) : (m.purge now).2.inFlight = m.inFlight := by
  obtain ⟨-, hl⟩ := h.purge now
  rw [inFlight_eq_size, inFlight_eq_size]
  exact congrArg (fun r => r.2.claims.size) hl.symm

end Sound

/-- Purges are exact. Whatever a memory has been asked before, a purge drops every outcome that has
reached the time to live and no other. It leaves all claims, keeps the writes that stay in their
order and changes nothing else; it tells how many outcomes it has dropped, which go from the size to
the count of the expired ones. A second purge at the same instant drops nothing. -/
theorem purge_exact (maxSize ttl : Nat) (start : Instant) (rs : List (Request V M)) :
    let m : Memo V M := { maxSize := maxSize, ttl := ttl }
    let now := (Memo.keeper.after start m rs).1
    let before := (Memo.keeper.after start m rs).2
    let n := (before.purge now).1
    let later := (before.purge now).2
    (∀ id e, later.slots.find? id = some (.committed e) ↔
      before.slots.find? id = some (.committed e) ∧ now - e.writtenAt < ttl) ∧
    (∀ id g marker, later.slots.find? id = some (.claimed g marker) ↔
      before.slots.find? id = some (.claimed g marker)) ∧
    later.inFlight = before.inFlight ∧
    later = { before with
      slots := later.slots
      order := { before.order with table := before.order.table.filter fun r =>
        (before.entryOf? r.2 r.1).any fun e => now - e.writtenAt < ttl }
      expirations := before.expirations + n } ∧
    n + later.size = before.size ∧
    n + later.slots.count (fun s => s.entry?.isSome) =
      before.slots.count (fun s => s.entry?.isSome) ∧
    later.purge now = (0, later) := by
  intro m now before n later
  obtain ⟨sound, -, dated, -, ttl_eq, -⟩ := orderly_after maxSize ttl start rs
  change before.Sound at sound
  change before.ttl = ttl at ttl_eq
  have size := sound.size_purge now
  refine ⟨?_, sound.find?_purge_eq_claimed_iff now, sound.inFlight_purge now, ?_, size, ?_,
    sound.purge_purge now⟩
  · rw [← ttl_eq]
    exact sound.find?_purge_eq_committed_iff dated
  · rw [← ttl_eq]
    exact sound.purge_eq dated
  · rw [← (sound.purge now).1.size_eq_count, ← sound.size_eq_count]
    exact size

end Memo
end AtMostOnce
