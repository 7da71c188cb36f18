/-! Rounding to the nearest binary64 number, in exact integer arithmetic. -/
namespace AtMostOnce

/-- A binary64 number, by its bits. -/
structure Binary64 where
  bits : UInt64
deriving DecidableEq

namespace Binary64

/-- The integer nearest to `a / b`, and the even one at a midpoint. -/
def roundDiv (a b : Nat) : Nat :=
  let q := a / b
  let r := a % b
  if 2 * r < b then q else if b < 2 * r then q + 1 else q + q % 2

/-- The nearest integer with at most 53 significant bits. -/
def roundNat (n : Nat) : Nat :=
  let step := Nat.pow 2 (n.log2 - 52)
  roundDiv n step * step

/-- The largest `k` with `2 ^ k ≤ a / b`, for positive `a` and `b`. -/
def ratioLog (a b : Nat) : Int :=
  let k : Int := a.log2 - b.log2
  if b * Nat.pow 2 k.toNat ≤ a * Nat.pow 2 (-k).toNat then k else k - 1

/-- The bits of infinity. -/
def infinityBits : Nat := 0x7FF0000000000000

/-- The number nearest to `a / b`, for positive `b`. -/
def ofRatio (a b : Nat) : Binary64 :=
  if a = 0 then ⟨0⟩
  else
    let e := max (ratioLog a b - 52) (-1074)
    let m := roundDiv (a * Nat.pow 2 (-e).toNat) (b * Nat.pow 2 e.toNat)
    let bits := (e + 1074).toNat * Nat.pow 2 52 + m
    ⟨(min bits infinityBits).toUInt64⟩

/-- The least integer that is rounded to infinity. -/
def overflowThreshold : Nat := Nat.pow 2 1024 - Nat.pow 2 970

/-- Whether `n * 10 ^ k` is too large for a finite number, each factor being rounded first. -/
def overflows (n : Nat) (k : Int) : Bool :=
  n ≠ 0 && (308 < k || (0 ≤ k && overflowThreshold ≤ roundNat n * roundNat (Nat.pow 10 k.toNat)))

end Binary64
end AtMostOnce
