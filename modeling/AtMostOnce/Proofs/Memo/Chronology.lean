import AtMostOnce.Proofs.Memo.Keeper
import Mathlib.Data.List.Pairwise

/-! The times of writes. Outcomes are written one after another, so that the order of writes is the
order of time. With that, the slots of a memory and its order of writes are consistent after
whatever it is asked. -/
namespace AtMostOnce
variable {V M : Type}

namespace Ledger
variable {l l' : Ledger V M} {now : Instant}

/-- Outcomes are listed by the time of their writes, and none was written in the future. -/
structure Dated (now : Instant) (l : Ledger V M) : Prop where
  ordered : l.written.Pairwise fun w w' => w.writtenAt ≤ w'.writtenAt
  past : ∀ w ∈ l.written, w.writtenAt ≤ now

theorem dated_new (maxSize ttl : Nat) (now : Instant) :
    ({ maxSize := maxSize, ttl := ttl } : Ledger V M).Dated now where
  ordered := .nil
  past := by simp

theorem Dated.of_sublist (h : l.Dated now) (hw : l'.written.Sublist l.written) :
    l'.Dated now where
  ordered := h.ordered.sublist hw
  past w hm := h.past w (hw.subset hm)

theorem Dated.later (h : l.Dated now) {later : Instant} (hle : now ≤ later) : l.Dated later where
  ordered := h.ordered
  past w hm := Nat.le_trans (h.past w hm) hle

/-- The latest write is the last one listed. -/
theorem Dated.commit (h : l.Dated now) (id : RequestId) (g : Nat) (o : Outcome V) :
    (l.commit now id g o).Dated now := by
  have hroom : (l.makeRoom now).Dated now := by
    refine h.of_sublist ?_
    rw [written_makeRoom]
    exact List.drop_sublist _ _
  unfold Ledger.commit
  dsimp only
  split
  · constructor
    · refine List.pairwise_append.mpr ⟨hroom.ordered, List.pairwise_singleton _ _, ?_⟩
      intro w hw w' hw'
      rw [List.mem_singleton.mp hw']
      exact hroom.past w hw
    · intro w hw
      rcases List.mem_append.mp hw with hw | hw
      · exact hroom.past w hw
      · obtain rfl := List.mem_singleton.mp hw
        exact Nat.le_refl now
  · exact hroom

theorem Dated.serve (h : l.Dated now) (r : Request V M) :
    (Ledger.keeper.serve now l r).2.2.Dated (Ledger.keeper.serve now l r).2.1 := by
  cases r with
  | lookup id marker => exact h.of_sublist (written_lookup_sublist l now id marker)
  | commit id generation outcome => exact h.commit id generation outcome
  | release id generation =>
    have hw : (l.release id generation).written = l.written := by
      unfold release
      split <;> rfl
    exact h.of_sublist (hw ▸ List.Sublist.refl _)
  | purge => exact h.of_sublist (List.dropWhile_sublist _)
  | advance d => exact h.later (Nat.le_add_right now d)

theorem Dated.after (h : l.Dated now) (rs : List (Request V M)) :
    (Ledger.keeper.after now l rs).2.Dated (Ledger.keeper.after now l rs).1 := by
  induction rs generalizing now l with
  | nil => exact h
  | cons r rs ih => exact ih (h.serve r)

end Ledger

def Slot.entry? : Slot V M → Option (Entry V)
  | .committed e => some e
  | .claimed .. => none

namespace Memo
variable {m : Memo V M} {now : Instant}

/-- The order of writes and the slots tell of the same outcomes, in the order of time, and the
claims are told apart by their numbers. -/
structure Consistent (now : Instant) (m : Memo V M) : Prop where
  increasing : m.order.records.Pairwise fun r r' => r.1 < r'.1
  /-- What is recorded is what has been committed. -/
  recorded : ∀ seq id, (seq, id) ∈ m.order.records ↔
    ∃ e, m.slots.find? id = some (.committed e) ∧ e.seq = seq
  size_eq : m.size = m.slots.count fun s => s.entry?.isSome
  /-- No id is recorded twice. -/
  once : (m.order.records.map Prod.snd).Nodup
  bounded : ∀ r ∈ m.order.records, r.1 < m.order.next
  issued : ∀ id g marker, m.slots.find? id = some (.claimed g marker) → g < m.nextGeneration
  single : ∀ id id' g marker marker', m.slots.find? id = some (.claimed g marker) →
    m.slots.find? id' = some (.claimed g marker') → id = id'
  /-- No id that is claimed is recorded. -/
  apart : ∀ id g marker, m.slots.find? id = some (.claimed g marker) →
    ∀ seq, (seq, id) ∉ m.order.records
  ordered : ∀ id id' e e', m.slots.find? id = some (.committed e) →
    m.slots.find? id' = some (.committed e') → e.seq ≤ e'.seq → e.writtenAt ≤ e'.writtenAt
  past : ∀ id e, m.slots.find? id = some (.committed e) → e.writtenAt ≤ now

namespace Sound

theorem ids_nodup (h : m.Sound) : (m.order.records.map Prod.snd).Nodup := by
  refine List.pairwise_map.mpr (m.order.increasing.imp_of_mem ?_)
  intro r r' hr hr' hlt heq
  have hseq : r.1 = r'.1 := h.seq_unique hr (show (r'.1, r.2) ∈ m.order.records from heq ▸ hr')
  omega

theorem mem_ids_iff (h : m.Sound) (id : RequestId) :
    id ∈ m.order.records.map Prod.snd ↔
      id ∈ (m.slots.filterMap Slot.entry?).entries.map Prod.fst := by
  simp only [List.mem_map, Prod.exists, exists_and_right, exists_eq_right]
  simp only [← Table.find?_eq_some_iff, Table.find?_filterMap, Option.bind_eq_some_iff]
  constructor
  · intro hx
    obtain ⟨seq, hr⟩ := hx
    obtain ⟨e, he, -⟩ := h.find?_of_record hr
    exact ⟨e, .committed e, he, rfl⟩
  · intro hx
    obtain ⟨e, s, hs, he⟩ := hx
    cases s with
    | claimed g marker => cases he
    | committed e' => exact ⟨e'.seq, h.record_of_find? hs⟩

/-- Each outcome is recorded once. -/
theorem size_eq_count (h : m.Sound) : m.size = m.slots.count fun s => s.entry?.isSome := by
  have hperm : (m.order.records.map Prod.snd).Perm
      ((m.slots.filterMap Slot.entry?).entries.map Prod.fst) :=
    (List.perm_ext_iff_of_nodup h.ids_nodup (m.slots.filterMap Slot.entry?).distinct).mpr
      h.mem_ids_iff
  have hlength := hperm.length_eq
  rw [List.length_map, List.length_map] at hlength
  rw [Table.count_isSome]
  exact hlength

theorem writtenAs_of_find? {id : RequestId} {e : Entry V}
    (hf : m.slots.find? id = some (.committed e)) :
    m.writtenAs (e.seq, id) = some ⟨id, e.outcome, e.writtenAt⟩ := by
  have he : m.entryOf? id e.seq = some e := (m.entryOf?_eq_some_iff id e.seq e).mpr ⟨hf, rfl⟩
  rw [writtenAs, he]
  rfl

/-- The order of writes is the order of time. -/
theorem writtenAt_le (h : m.Sound) (hd : m.ledger.Dated now) {id id' : RequestId}
    {e e' : Entry V} (hf : m.slots.find? id = some (.committed e))
    (hf' : m.slots.find? id' = some (.committed e')) (hle : e.seq ≤ e'.seq) :
    e.writtenAt ≤ e'.writtenAt := by
  let Later (r r' : Nat × RequestId) : Prop := r.1 ≤ r'.1 →
    ∀ w ∈ m.writtenAs r, ∀ w' ∈ m.writtenAs r', w.writtenAt ≤ w'.writtenAt
  have hself : ∀ r ∈ m.order.records, Later r r := by
    intro r _ _ w hw w' hw'
    obtain rfl : w = w' := Option.some.inj (hw.symm.trans hw')
    exact Nat.le_refl _
  have hforth : m.order.records.Pairwise Later := by
    refine (List.pairwise_filterMap.mp hd.ordered).imp ?_
    intro r r' ha _
    exact ha
  have hback : m.order.records.Pairwise (flip Later) := by
    refine m.order.increasing.imp ?_
    intro r r' hlt hge
    omega
  have hall := hforth.forall_of_forall_of_flip hself hback (h.record_of_find? hf)
    (h.record_of_find? hf')
  exact hall hle _ (writtenAs_of_find? hf) _ (writtenAs_of_find? hf')

theorem consistent (h : m.Sound) (hl : m.ledger.Sound) (hd : m.ledger.Dated now) :
    m.Consistent now where
  increasing := m.order.increasing
  recorded seq id := by
    rw [h.recorded]
    simp only [entryOf?_eq_some_iff]
  size_eq := h.size_eq_count
  once := h.ids_nodup
  bounded := h.bounded
  issued id g marker hf := hl.issued id g marker ((m.find?_claims_eq_some_iff id g marker).mpr hf)
  single id id' g marker marker' hf hf' := hl.single id id' g marker marker'
    ((m.find?_claims_eq_some_iff _ _ _).mpr hf) ((m.find?_claims_eq_some_iff _ _ _).mpr hf')
  apart id g marker hf seq hr := by
    obtain ⟨e, he, -⟩ := h.find?_of_record hr
    rw [hf] at he
    cases he
  ordered id id' e e' hf hf' hle := h.writtenAt_le hd hf hf' hle
  past id e hf := hd.past ⟨id, e.outcome, e.writtenAt⟩ ((h.mem_written_iff _).mpr ⟨e.seq, hf⟩)

end Sound

/-- Whatever a memory is asked, and however much time passes meanwhile, its order of writes and its
slots stay consistent. -/
theorem consistent_after (maxSize ttl : Nat) (now : Instant) (rs : List (Request V M)) :
    let m : Memo V M := { maxSize := maxSize, ttl := ttl }
    (Memo.keeper.after now m rs).2.Consistent (Memo.keeper.after now m rs).1 := by
  intro m
  have hm : m.Sound := sound_new maxSize ttl
  have hl : m.ledger.Sound := Ledger.sound_new maxSize ttl
  have hd : m.ledger.Dated now := Ledger.dated_new maxSize ttl now
  obtain ⟨hs, hs', he⟩ := after_ledger hm hl now rs
  have hd' := hd.after rs
  rw [he] at hd'
  exact hs.consistent hs' hd'

end Memo
end AtMostOnce
