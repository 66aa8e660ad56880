/-! Decimal numbers, and which of them a double can hold. -/

namespace Reconcile

structure Decimal where
  mantissa : Int
  exponent : Int
  deriving DecidableEq, Repr

namespace Decimal

def limit : Nat := Nat.pow 2 1024 - Nat.pow 2 970

/-- Whether the number is below the limit. A number with `d` digits before its exponent `e` lies
between `10 ^ (d + e - 1)` and `10 ^ (d + e)`, so only a middling one has to be computed. -/
def isFinite (x : Decimal) : Bool :=
  let magnitude : Int := (Nat.toDigits 10 x.mantissa.natAbs).length + x.exponent
  if x.mantissa = 0 ∨ magnitude ≤ 308 then true
  else if 309 < magnitude then false
  else x.mantissa.natAbs * Nat.pow 10 x.exponent.toNat < limit * Nat.pow 10 (-x.exponent).toNat

def ofDigits (ds : List Char) : Nat :=
  ds.foldl (fun n d => 10 * n + (d.toNat - '0'.toNat)) 0

end Decimal

end Reconcile
