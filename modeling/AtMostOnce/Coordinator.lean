import AtMostOnce.Memo
import AtMostOnce.Usage

/-! The coordinator of calls. A call under an id is answered from memory, or waits on the execution
under way, or starts one of its own. Executions are named by the numbers of their claims. -/
namespace AtMostOnce

structure Coordinator (V : Type) where
  memo : Memo V Nat
  hits : Nat := 0
  misses : Nat := 0
  executions : Nat := 0
  waits : Nat := 0
  rollbacks : Nat := 0

/-- What a caller has to do. -/
inductive Decision (V : Type) where
  | replay (outcome : Outcome V)
  /-- Wait on the execution with the given number. -/
  | wait (number : Nat)
  /-- Run the handler as the execution with the given number. -/
  | execute (number : Nat)

namespace Coordinator
variable {V : Type}

/-- A coordinator that remembers up to `maxSize` outcomes for `ttl` nanoseconds each. -/
def new (maxSize ttl : Nat) : Coordinator V := { memo := { maxSize := maxSize, ttl := ttl } }

def claim (k : Coordinator V) (now : Instant) (id : RequestId) : Decision V × Coordinator V :=
  match k.memo.lookup now id k.memo.nextGeneration with
  | (.live outcome, memo) => (.replay outcome, { k with memo := memo, hits := k.hits + 1 })
  | (.pending number, memo) => (.wait number, { k with memo := memo, waits := k.waits + 1 })
  | (.claimed number, memo) =>
    (.execute number,
      { k with memo := memo, misses := k.misses + 1, executions := k.executions + 1 })

/-- Remembers the outcome of an execution. -/
def commit (k : Coordinator V) (now : Instant) (id : RequestId) (number : Nat)
    (outcome : Outcome V) : Coordinator V :=
  { k with memo := k.memo.commit now id number outcome }

/-- Ends an execution that leaves nothing to remember, and frees its id. -/
def rollBack (k : Coordinator V) (id : RequestId) (number : Nat) : Coordinator V :=
  { k with memo := k.memo.release id number, rollbacks := k.rollbacks + 1 }

/-- Drops expired outcomes and counts them. -/
def purge (k : Coordinator V) (now : Instant) : Nat × Coordinator V :=
  let (n, memo) := k.memo.purge now
  (n, { k with memo := memo })

def usage (k : Coordinator V) : Usage where
  hits := k.hits
  misses := k.misses
  executions := k.executions
  waits := k.waits
  rollbacks := k.rollbacks
  evictions := k.memo.evictions
  expirations := k.memo.expirations
  entries := k.memo.size
  inFlight := k.memo.inFlight

end Coordinator
end AtMostOnce
