import AtMostOnce.Clock

/-! Recurring sweeps and the timers they wait on. -/
namespace AtMostOnce

/-- A timer, of which just as much is known as sweeps rely on. On whole milliseconds it is exact,
but for the longest waits, which it cuts short; and it takes time for any wait but an empty one. -/
structure Timer where
  /-- Nanoseconds after which every wait is over. -/
  longestWait : Nat
  /-- The instant at which a wait of so many nanoseconds is over that begins at the given
  instant. -/
  wake : Nat → Instant → Instant
  wake_of_whole : ∀ wait now, millisecond ∣ wait → millisecond ∣ now →
    wake wait now = now + min wait longestWait
  lt_wake : ∀ wait now, 0 < wait → now < wake wait now

/-- A timer with a resolution of one millisecond. A wait is over at the first whole millisecond that
is not before its end. -/
def Timer.ofLongestWait (longestWait : Nat) (positive : 0 < longestWait)
    (whole : millisecond ∣ longestWait) : Timer where
  longestWait := longestWait
  wake wait now := (now + min wait longestWait + (millisecond - 1)) / millisecond * millisecond
  wake_of_whole wait now hwait hnow := by
    simp only [millisecond] at *
    unfold Instant at *
    omega
  lt_wake wait now hwait := by
    simp only [millisecond]
    unfold Instant at *
    omega

/-- A recurring sweep and the instant at which it is next due. -/
structure Sweep where
  timer : Timer
  /-- Nanoseconds that are to pass between the end of one sweep and the next. -/
  interval : Nat
  due : Instant

namespace Sweep

/-- A sweep waits for its interval, or as long as its timer can. -/
def start (timer : Timer) (interval : Nat) (now : Instant) : Sweep where
  timer := timer
  interval := interval
  due := timer.wake interval now

def isDue (w : Sweep) (now : Instant) : Bool := w.due ≤ now

/-- A sweep that is due is armed anew from the present, whatever it has missed. -/
def advance (now : Instant) (w : Sweep) : Sweep :=
  if w.isDue now then start w.timer w.interval now else w

section
variable {S C : Type} (purge : S → C × S) (now : Instant)

/-- The sweeps that are due purge one after another. What each has dropped is told with its place,
which is counted from `n` on. -/
def purgeDue : Nat → List Sweep → S → List (Nat × C) × S
  | _, [], s => ([], s)
  | n, w :: ws, s =>
    if w.isDue now then
      let (count, s) := purge s
      let (told, s) := purgeDue (n + 1) ws s
      ((n, count) :: told, s)
    else purgeDue (n + 1) ws s

end

end Sweep
end AtMostOnce
