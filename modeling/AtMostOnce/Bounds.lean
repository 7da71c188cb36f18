import AtMostOnce.Clock
import AtMostOnce.ConfigError

/-! The bounds of a memory. -/
namespace AtMostOnce

/-- How many outcomes are remembered, and for how many milliseconds each. -/
structure Bounds where
  maxSize : Nat
  timeToLive : Nat
  maxSize_pos : 0 < maxSize
  timeToLive_pos : 0 < timeToLive

namespace Bounds

/-- Both bounds have to be positive; the size is looked at first. -/
def of (maxSize timeToLive : Nat) : Except ConfigError Bounds :=
  if hm : 0 < maxSize then
    if ht : 0 < timeToLive then .ok ⟨maxSize, timeToLive, hm, ht⟩
    else .error (.notPositive .timeToLive)
  else .error (.notPositive .maxSize)

/-- Ten thousand outcomes, two seconds each. -/
def default : Bounds := ⟨10000, 2000, by decide, by decide⟩

/-- The time to live in nanoseconds. -/
def ttl (b : Bounds) : Nat := b.timeToLive * millisecond

end Bounds
end AtMostOnce
