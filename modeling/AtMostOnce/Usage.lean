import AtMostOnce.Json.Document

/-! Figures on the use of a coordinator. -/
namespace AtMostOnce

structure Usage where
  /-- Claims answered from memory. -/
  hits : Nat := 0
  /-- Claims that found neither an outcome nor an execution. -/
  misses : Nat := 0
  /-- Executions started. -/
  executions : Nat := 0
  /-- Claims that found an execution to wait on. -/
  waits : Nat := 0
  /-- Executions that ended in nothing to remember. -/
  rollbacks : Nat := 0
  /-- Live outcomes dropped to make room. -/
  evictions : Nat := 0
  /-- Outcomes dropped because their time was over. -/
  expirations : Nat := 0
  /-- Outcomes held. -/
  entries : Nat := 0
  /-- Executions that have not ended. -/
  inFlight : Nat := 0
deriving DecidableEq

namespace Usage

/-- The share of hits among hits and misses, both rounded before they are divided; zero before there
are any. -/
def hitRate (u : Usage) : Binary64 :=
  let total := u.hits + u.misses
  if total = 0 then ⟨0⟩ else .ofRatio (Binary64.roundNat u.hits) (Binary64.roundNat total)

def counters (u : Usage) : List (String × Nat) :=
  [("hits", u.hits), ("misses", u.misses), ("executions", u.executions), ("waits", u.waits),
    ("rollbacks", u.rollbacks), ("evictions", u.evictions), ("expirations", u.expirations),
    ("entries", u.entries), ("in_flight", u.inFlight)]

def document (u : Usage) : Json.Document :=
  .object (u.counters.map (fun c => (c.1, .count c.2)) ++ [("hit_rate", .real u.hitRate)])

end Usage
end AtMostOnce
