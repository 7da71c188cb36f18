import AtMostOnce.WriteOrder
import AtMostOnce.Proofs.OrderedTable
import Mathlib.Data.List.Induction

/-! The order of writes as a queue. Writes are held by their numbers; but since every number given
is above those before it, whatever is done leaves the writes that have been touched and have not
left since, in the order in which they were touched. -/
namespace AtMostOnce.WriteOrder

section
variable {w w' : WriteOrder}

theorem increasing (w : WriteOrder) : w.records.Pairwise fun r r' => r.1 < r'.1 :=
  w.table.increasing

theorem eq_of_records_eq (records : w.records = w'.records) (next : w.next = w'.next) : w = w' := by
  obtain ⟨table, _⟩ := w
  obtain ⟨table', _⟩ := w'
  obtain rfl : table = table' := OrderedTable.eq_of_entries_eq records
  cases next
  rfl

theorem mem_records_iff (w : WriteOrder) (seq : Nat) (id : RequestId) :
    (seq, id) ∈ w.records ↔ w.table.find? seq = some id :=
  (w.table.find?_eq_some_iff seq id).symm

/-- No two writes are held under one number. -/
theorem id_unique {seq : Nat} {id id' : RequestId} (h : (seq, id) ∈ w.records)
    (h' : (seq, id') ∈ w.records) : id = id' := by
  rw [mem_records_iff] at h h'
  exact Option.some.inj (h.symm.trans h')

/-- A write comes last if its number is above those of all writes held. -/
theorem records_touch (below : ∀ r ∈ w.records, r.1 < w.next) (id : RequestId) :
    (w.touch id).2.records = w.records ++ [(w.next, id)] :=
  OrderedTable.entries_insert_of_below below id

theorem records_remove (w : WriteOrder) (seq : Nat) :
    (w.remove seq).2.records = w.records.filter fun r => r.1 ≠ seq := rfl

theorem oldest?_eq (w : WriteOrder) : w.oldest? = w.records.head? := rfl

theorem records_removeOldest (w : WriteOrder) : w.removeOldest.2.records = w.records.tail :=
  w.table.entries_eraseFirst

/-- The write with the least number is removed as if by its number. -/
theorem removeOldest_of_oldest {r : Nat × RequestId} (h : w.oldest? = some r) :
    w.removeOldest = (some r, (w.remove r.1).2) := by
  have hfirst : w.table.first? = some r := h
  simp only [removeOldest, OrderedTable.eraseFirst, h, hfirst, remove]

theorem removeOldest_of_none (h : w.oldest? = none) : w.removeOldest = (none, w) := by
  have hfirst : w.table.first? = none := h
  simp only [removeOldest, OrderedTable.eraseFirst, h, hfirst]

end

/-- What can be done with an order of writes. -/
inductive Operation where
  | touch (id : RequestId)
  | remove (seq : Nat)
  | removeOldest
  | oldest

/-- What has been done, with what was told of it. -/
inductive Event where
  | touched (seq : Nat) (id : RequestId)
  | removed (seq : Nat) (found : Option RequestId)
  | removedOldest (found : Option (Nat × RequestId))
  | sawOldest (found : Option (Nat × RequestId))

/-- The write that comes in. -/
def Event.arrival? : Event → Option (Nat × RequestId)
  | touched seq id => some (seq, id)
  | removed .. | removedOldest _ | sawOldest _ => none

/-- The number of the write that leaves: a write leaves if it is found when it is to be removed. -/
def Event.departure? : Event → Option Nat
  | removed seq found => found.map fun _ => seq
  | removedOldest found => found.map Prod.fst
  | touched .. | sawOldest _ => none

/-- The writes that have been touched, the earliest first. -/
def arrivals (es : List Event) : List (Nat × RequestId) := es.filterMap Event.arrival?

/-- The numbers of the writes that have left. -/
def departures (es : List Event) : List Nat := es.filterMap Event.departure?

/-- The writes that have been touched and have not left, the earliest first. -/
def staying (es : List Event) : List (Nat × RequestId) :=
  (arrivals es).filter fun r => r.1 ∉ departures es

def perform (w : WriteOrder) : Operation → Event × WriteOrder
  | .touch id => (.touched (w.touch id).1 id, (w.touch id).2)
  | .remove seq => (.removed seq (w.remove seq).1, (w.remove seq).2)
  | .removeOldest => (.removedOldest w.removeOldest.1, w.removeOldest.2)
  | .oldest => (.sawOldest w.oldest?, w)

/-- What comes of operations one after another: the events, the earliest first, and the state after
them. -/
def performAll {S : Type} (perform : S → Operation → Event × S) (s : S) (os : List Operation) :
    List Event × S :=
  os.foldl (fun r o => (r.1 ++ [(perform r.2 o).1], (perform r.2 o).2)) ([], s)

theorem performAll_concat {S : Type} (perform : S → Operation → Event × S) (s : S)
    (os : List Operation) (o : Operation) : performAll perform s (os ++ [o]) =
      ((performAll perform s os).1 ++ [(perform (performAll perform s os).2 o).1],
        (perform (performAll perform s os).2 o).2) :=
  List.foldl_concat _ _ _ _

/-- What comes of operations on an empty order. -/
def run (os : List Operation) : List Event × WriteOrder := performAll perform {} os

theorem run_concat (os : List Operation) (o : Operation) : run (os ++ [o]) =
    ((run os).1 ++ [((run os).2.perform o).1], ((run os).2.perform o).2) :=
  performAll_concat _ _ _ _

/-- A plain queue. What is touched goes to its back, and its front is the oldest. -/
structure Queue where
  records : List (Nat × RequestId) := []
  next : Nat := 0

def Queue.perform (q : Queue) : Operation → Event × Queue
  | .touch id =>
    (.touched q.next id, { records := q.records ++ [(q.next, id)], next := q.next + 1 })
  | .remove seq =>
    (.removed seq (q.records.lookup seq),
      { q with records := q.records.filter fun r => r.1 ≠ seq })
  | .removeOldest => (.removedOldest q.records.head?, { q with records := q.records.tail })
  | .oldest => (.sawOldest q.records.head?, q)

def Queue.run (os : List Operation) : List Event × Queue := performAll Queue.perform {} os

/-- The queue of the writes held. -/
def queue (w : WriteOrder) : Queue := ⟨w.records, w.next⟩

/-- As long as the next number is above those of all writes held, keeping them by their numbers is
keeping a queue of them. -/
theorem perform_queue {w : WriteOrder} (below : ∀ r ∈ w.records, r.1 < w.next) (o : Operation) :
    w.queue.perform o = ((w.perform o).1, (w.perform o).2.queue) := by
  cases o with
  | touch id => exact congrArg (fun rs => (_, Queue.mk rs _)) (records_touch below id).symm
  | remove seq => rfl
  | removeOldest => exact congrArg (fun rs => (_, Queue.mk rs _)) w.records_removeOldest.symm
  | oldest => rfl

theorem arrivals_concat (es : List Event) (e : Event) :
    arrivals (es ++ [e]) = arrivals es ++ e.arrival?.toList := by
  rw [arrivals, List.filterMap_append]
  cases h : e.arrival? <;> simp [h, arrivals]

theorem departures_concat (es : List Event) (e : Event) :
    departures (es ++ [e]) = departures es ++ e.departure?.toList := by
  rw [departures, List.filterMap_append]
  cases h : e.departure? <;> simp [h, departures]

/-- What an order of writes has to do with what has been done. -/
structure Told (w : WriteOrder) (es : List Event) : Prop where
  records : w.records = staying es
  increasing : (arrivals es).Pairwise fun r r' => r.1 < r'.1
  below : ∀ r ∈ arrivals es, r.1 < w.next
  issued : ∀ seq ∈ departures es, seq < w.next
  size : w.size + (departures es).length = (arrivals es).length

theorem told_new : Told {} [] := ⟨rfl, .nil, nofun, nofun, rfl⟩

namespace Told
variable {w w' : WriteOrder} {es : List Event} {e : Event} (h : Told w es)
include h

theorem records_below : ∀ r ∈ w.records, r.1 < w.next := by
  intro r hr
  rw [h.records] at hr
  exact h.below r (List.mem_of_mem_filter hr)

/-- Nothing comes and nothing leaves. -/
theorem stay (harrival : e.arrival? = none) (hdeparture : e.departure? = none) :
    Told w (es ++ [e]) := by
  have ha : arrivals (es ++ [e]) = arrivals es := by simp [arrivals_concat, harrival]
  have hd : departures (es ++ [e]) = departures es := by simp [departures_concat, hdeparture]
  refine ⟨?_, ha ▸ h.increasing, ha ▸ h.below, hd ▸ h.issued, ?_⟩
  · rw [staying, ha, hd]
    exact h.records
  · rw [ha, hd]
    exact h.size

/-- A write comes in under a number that has never been given. -/
theorem touch (id : RequestId) :
    Told (w.touch id).2 (es ++ [.touched (w.touch id).1 id]) := by
  have ha : arrivals (es ++ [.touched w.next id]) = arrivals es ++ [(w.next, id)] :=
    arrivals_concat _ _
  have hd : departures (es ++ [.touched w.next id]) = departures es :=
    (departures_concat _ _).trans (List.append_nil _)
  have hnew : w.next ∉ departures es := fun hmem => Nat.lt_irrefl _ (h.issued _ hmem)
  refine ⟨?_, ?_, ?_, ?_, ?_⟩
  · show (w.touch id).2.records = staying (es ++ [.touched w.next id])
    rw [records_touch h.records_below, staying, ha, hd, List.filter_append, h.records,
      List.filter_cons_of_pos (by simpa using hnew)]
    rfl
  · show (arrivals (es ++ [.touched w.next id])).Pairwise _
    rw [ha, List.pairwise_append]
    exact ⟨h.increasing, List.pairwise_singleton _ _, fun r hr => by simpa using h.below r hr⟩
  · show ∀ r ∈ arrivals (es ++ [.touched w.next id]), r.1 < w.next + 1
    rw [ha, List.forall_mem_append, List.forall_mem_singleton]
    exact ⟨fun r hr => Nat.lt_succ_of_lt (h.below r hr), Nat.lt_succ_self _⟩
  · show ∀ seq ∈ departures (es ++ [.touched w.next id]), seq < w.next + 1
    rw [hd]
    exact fun seq hseq => Nat.lt_succ_of_lt (h.issued seq hseq)
  · have hsize : w.records.length + (departures es).length = (arrivals es).length := h.size
    show (w.touch id).2.records.length + (departures (es ++ [.touched w.next id])).length =
      (arrivals (es ++ [.touched w.next id])).length
    rw [records_touch h.records_below, ha, hd, List.length_append, List.length_append,
      List.length_singleton]
    omega

/-- A write that is held leaves, and the others stay. -/
theorem leave {seq : Nat} {id : RequestId} (held : w.table.find? seq = some id)
    (harrival : e.arrival? = none) (hdeparture : e.departure? = some seq) :
    Told (w.remove seq).2 (es ++ [e]) := by
  have ha : arrivals (es ++ [e]) = arrivals es := by simp [arrivals_concat, harrival]
  have hd : departures (es ++ [e]) = departures es ++ [seq] := by
    simp [departures_concat, hdeparture]
  refine ⟨?_, ha ▸ h.increasing, ha ▸ h.below, ?_, ?_⟩
  · rw [records_remove, staying, ha, hd, h.records, staying, List.filter_filter]
    refine List.filter_congr fun r _ => ?_
    simp [and_comm]
  · rw [hd, List.forall_mem_append, List.forall_mem_singleton]
    exact ⟨h.issued, h.records_below _ ((w.mem_records_iff seq id).mpr held)⟩
  · have hsize : w.table.size + (departures es).length = (arrivals es).length := h.size
    have hleft := OrderedTable.size_erase held
    show (w.table.erase seq).size + (departures (es ++ [e])).length = (arrivals (es ++ [e])).length
    rw [ha, hd, List.length_append, List.length_singleton]
    omega

theorem remove (seq : Nat) :
    Told (w.remove seq).2 (es ++ [.removed seq (w.remove seq).1]) := by
  cases hfound : w.table.find? seq with
  | some id => exact h.leave hfound rfl (congrArg (Option.map fun _ => seq) hfound)
  | none =>
    have hsame : (w.remove seq).2 = w := by
      refine eq_of_records_eq (List.filter_eq_self.mpr fun r hr => decide_eq_true ?_) rfl
      rintro rfl
      rw [(w.mem_records_iff r.1 r.2).mp hr] at hfound
      cases hfound
    rw [hsame]
    exact h.stay rfl (congrArg (Option.map fun _ => seq) hfound)

theorem removeOldest :
    Told w.removeOldest.2 (es ++ [.removedOldest w.removeOldest.1]) := by
  cases holdest : w.oldest? with
  | none =>
    rw [removeOldest_of_none holdest]
    exact h.stay rfl rfl
  | some r =>
    have held : w.table.find? r.1 = some r.2 := ((w.table.first?_eq_some_iff r.1 r.2).mp holdest).1
    rw [removeOldest_of_oldest holdest]
    exact h.leave held rfl rfl

theorem perform (o : Operation) : Told (w.perform o).2 (es ++ [(w.perform o).1]) := by
  cases o with
  | touch id => exact h.touch id
  | remove seq => exact h.remove seq
  | removeOldest => exact h.removeOldest
  | oldest => exact h.stay rfl rfl

end Told

theorem told_run (os : List Operation) : Told (run os).2 (run os).1 := by
  induction os using List.reverseRecOn with
  | nil => exact told_new
  | append_singleton os o ih =>
    rw [run_concat]
    exact ih.perform o

/-- An order of writes tells and holds what the queue does. -/
theorem run_queue (os : List Operation) : Queue.run os = ((run os).1, (run os).2.queue) := by
  induction os using List.reverseRecOn with
  | nil => rfl
  | append_singleton os o ih =>
    have queued : performAll Queue.perform {} os = ((run os).1, (run os).2.queue) := ih
    rw [Queue.run, performAll_concat, queued, run_concat,
      perform_queue (told_run os).records_below]

/-- An order of writes is a queue of what has been touched, from which writes may be removed by
their numbers. Whatever is done, it tells what the plain queue does and holds the same. It then
holds just the writes that have been touched and have not left, in the order of the touches, and as
many as that makes; every touch has been given a number above those before it, and so will the next
one be, which takes the place of no write and comes last; the write of the least number is the
earliest that stays, and there is none just if nothing stays; and a write is found by its number
just if it stays, and the others are not disturbed. -/
theorem queue_of_writes (os : List Operation) :
    let es := (run os).1
    let w := (run os).2
    Queue.run os = (es, w.queue) ∧
      w.records = staying es ∧ w.size + (departures es).length = (arrivals es).length ∧
      (arrivals es).Pairwise (fun r r' => r.1 < r'.1) ∧
      (∀ id, w.table.find? (w.touch id).1 = none ∧
        (w.touch id).2.records = staying es ++ [((w.touch id).1, id)] ∧
        ∀ r ∈ arrivals es, r.1 < (w.touch id).1) ∧
      w.oldest? = (staying es).head? ∧
      w.removeOldest.1 = (staying es).head? ∧ w.removeOldest.2.records = (staying es).tail ∧
      ∀ seq, (∀ id, (w.remove seq).1 = some id ↔ (seq, id) ∈ staying es) ∧
        (w.remove seq).2.records = (staying es).filter fun r => r.1 ≠ seq := by
  intro es w
  have h : Told w es := told_run os
  have fresh : w.table.find? w.next = none := by
    refine Option.eq_none_iff_forall_ne_some.mpr fun id hfound => ?_
    exact Nat.lt_irrefl _ (h.records_below _ ((w.mem_records_iff w.next id).mpr hfound))
  rw [← h.records]
  exact ⟨run_queue os, rfl, h.size, h.increasing,
    fun id => ⟨fresh, records_touch h.records_below id, h.below⟩, w.oldest?_eq, w.oldest?_eq,
    w.records_removeOldest,
    fun seq => ⟨fun id => (w.mem_records_iff seq id).symm, w.records_remove seq⟩⟩

/-- A write that is made anew moves to the back, and a number that was never given finds nothing. -/
theorem queue_of_writes_made_anew :
    let os : List Operation :=
      [.touch ⟨"a"⟩, .touch ⟨"b"⟩, .remove 0, .touch ⟨"a"⟩, .remove 42, .oldest]
    let w := (run os).2
    staying (run os).1 = [(1, ⟨"b"⟩), (2, ⟨"a"⟩)] ∧ w.size = 2 ∧ w.oldest? = some (1, ⟨"b"⟩) ∧
      (w.remove 2).1 = some ⟨"a"⟩ ∧ (w.remove 0).1 = none ∧ 2 < (w.touch ⟨"c"⟩).1 := by
  intro os w
  have harrivals : arrivals (run os).1 = [(0, ⟨"a"⟩), (1, ⟨"b"⟩), (2, ⟨"a"⟩)] := by decide
  have hdepartures : departures (run os).1 = [0] := by decide
  have hstaying : staying (run os).1 = [(1, ⟨"b"⟩), (2, ⟨"a"⟩)] := by
    rw [staying, harrivals, hdepartures]
    decide
  obtain ⟨-, -, hsize, -, htouch, holdest, -, -, hremove⟩ := queue_of_writes os
  rw [harrivals, hdepartures] at hsize
  rw [hstaying] at holdest
  refine ⟨hstaying, Nat.succ.inj hsize, holdest, ?_, ?_, ?_⟩
  · exact ((hremove 2).1 ⟨"a"⟩).mpr (by rw [hstaying]; decide)
  · rw [Option.eq_none_iff_forall_ne_some]
    intro id hfound
    have hmem := ((hremove 0).1 id).mp hfound
    rw [hstaying] at hmem
    simp at hmem
  · exact (htouch ⟨"c"⟩).2.2 (2, ⟨"a"⟩) (by rw [harrivals]; decide)

end AtMostOnce.WriteOrder
