/-! Time in whole nanoseconds. -/
namespace AtMostOnce

/-- Nanoseconds since the start. -/
abbrev Instant := Nat

/-- Nanoseconds in a millisecond. -/
def millisecond : Nat := 1000000

/-- Nanoseconds in a second. -/
def second : Nat := 1000000000

/-- A clock that measures time since the start, and the date at the start. -/
structure Clock where
  now : Instant := 0
  /-- Nanoseconds from the beginning of 1970 to the start. -/
  origin : Nat

namespace Clock

/-- Nanoseconds since the beginning of 1970. -/
def date (c : Clock) : Nat := c.origin + c.now

def advance (c : Clock) (d : Nat) : Clock := { c with now := c.now + d }

end Clock
end AtMostOnce
