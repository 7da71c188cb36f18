import AtMostOnce.Binary64

/-! Decimals of binary64 numbers: the fewest digits that read back, and two ways of reading. -/
namespace AtMostOnce

/-- The decimal `digits * 10 ^ exponent`. -/
structure Decimal where
  digits : Nat
  exponent : Int
deriving DecidableEq

namespace Decimal

/-- The nearest binary64 number. -/
def nearest (d : Decimal) : Binary64 :=
  .ofRatio (d.digits * Nat.pow 10 d.exponent.toNat) (Nat.pow 10 (-d.exponent).toNat)

/-- The binary64 number that is reached when the digits and the power of ten are rounded before they
are multiplied or divided. It may miss the nearest one by a last place. -/
def quick (d : Decimal) : Binary64 :=
  let digits := Binary64.roundNat d.digits
  let power := Binary64.roundNat (Nat.pow 10 d.exponent.natAbs)
  if d.exponent < 0 then .ofRatio digits power else .ofRatio (digits * power) 1

end Decimal

namespace Binary64

/-- The bits of the fraction. -/
def fractionBits (x : Binary64) : Nat := x.bits.toNat % Nat.pow 2 52

/-- The bits of the exponent. -/
def exponentBits (x : Binary64) : Nat := x.bits.toNat / Nat.pow 2 52 % Nat.pow 2 11

/-- The integer `m` of a positive finite number `m * 2 ^ e`. -/
def significand (x : Binary64) : Nat :=
  if x.exponentBits = 0 then x.fractionBits else Nat.pow 2 52 + x.fractionBits

/-- The exponent `e` of a positive finite number `m * 2 ^ e`. -/
def exponent (x : Binary64) : Int := max 1 x.exponentBits - 1075

/-- A multiple of `10 ^ k` next to a positive finite number that reads back as that number, and the
nearer one if both neighbours do. -/
def gridPoint? (x : Binary64) (k : Int) : Option Decimal :=
  let a := x.significand * Nat.pow 2 x.exponent.toNat * Nat.pow 10 (-k).toNat
  let b := Nat.pow 2 (-x.exponent).toNat * Nat.pow 10 k.toNat
  let near := roundDiv a b
  let far := 2 * (a / b) + 1 - near
  ([near, far].map fun d => (⟨d, k⟩ : Decimal)).find? fun d => d.nearest = x

/-- A power of ten that is well above the number. -/
def topExponent (x : Binary64) : Int := max 0 (x.exponent + 54)

/-- As many grids as lie between the top exponent and one that is finer than all numbers. -/
def gridCount : Nat := 1400

/-- The decimal with the fewest digits that reads back as a positive finite number: a point of the
coarsest grid that has one. -/
def fewestDigits (x : Binary64) : Decimal :=
  ((List.range gridCount).findSome? fun (i : Nat) => x.gridPoint? (x.topExponent - i)).getD ⟨0, 0⟩

end Binary64
end AtMostOnce
