import AtMostOnce.OrderedTable
import AtMostOnce.RequestId

/-! The order of writes: every write is held under a number of its own, the next one that is free,
and the one with the least number is the oldest. -/
namespace AtMostOnce

structure WriteOrder where
  /-- The writes held, each under its number. -/
  table : OrderedTable RequestId := .empty
  /-- The number of the next write. -/
  next : Nat := 0

namespace WriteOrder

/-- The writes held, in the order of their numbers. -/
def records (w : WriteOrder) : List (Nat × RequestId) := w.table.entries

def size (w : WriteOrder) : Nat := w.table.size

/-- Records a write of `id` and returns its number. -/
def touch (w : WriteOrder) (id : RequestId) : Nat × WriteOrder :=
  (w.next, ⟨w.table.insert w.next id, w.next + 1⟩)

/-- Removes the write with the given number, if it is held, and returns its id. -/
def remove (w : WriteOrder) (seq : Nat) : Option RequestId × WriteOrder :=
  (w.table.find? seq, { w with table := w.table.erase seq })

/-- The oldest write held. -/
def oldest? (w : WriteOrder) : Option (Nat × RequestId) := w.table.first?

/-- Removes the oldest write held. -/
def removeOldest (w : WriteOrder) : Option (Nat × RequestId) × WriteOrder :=
  (w.oldest?, { w with table := w.table.eraseFirst })

end WriteOrder
end AtMostOnce
