import Reconcile.Decimal

/-! Doubles: the numbers with 53 significant bits that are multiples of `2 ^ -1074` and lie below
`2 ^ 1024`. They are added up from units of `2 ^ -1074`, so every rounding is one of a quotient of
natural numbers. -/

namespace Reconcile

structure Double where
  negative : Bool
  units : Nat
  deriving Repr

namespace Double

instance : BEq Double where
  beq x y := x.units == y.units && (x.units == 0 || x.negative == y.negative)

def one : Nat := Nat.pow 2 1074

def limit : Nat := Nat.pow 2 2098

def round (num den : Nat) : Nat :=
  let step := Nat.pow 2 ((num / den).log2 - 52)
  let count := num / (den * step)
  let rest := 2 * (num % (den * step))
  if den * step < rest ∨ (den * step = rest ∧ count % 2 = 1) then (count + 1) * step
  else count * step

def ofNat (n : Nat) : Nat := round (n * one) 1

def multiply (x y : Nat) : Nat := round (x * y) one

def divide (x y : Nat) : Nat := round (x * one) y

def power (k : Nat) : Nat := ofNat (Nat.pow 10 k)

/-- The units of `m * 10 ^ e`, unless that is infinite; `m` has at most 64 bits. The two factors are
rounded, and their product or quotient is rounded again. The powers end at `10 ^ 308`, so a smaller
number takes two divisions, and below `10 ^ -616` they leave nothing of it. -/
def scale? (m : Nat) (e : Int) : Option Nat :=
  let x := ofNat m
  if m = 0 ∨ e < -616 then some 0
  else if 308 < e then none
  else if 0 ≤ e then
    let y := multiply x (power e.toNat)
    if y < limit then some y else none
  else if -308 ≤ e then some (divide x (power (-e).toNat))
  else some (divide (divide x (power 308)) (power (-e - 308).toNat))

def nearest (c : Nat) (e : Int) : Nat :=
  round (c * Nat.pow 10 e.toNat * one) (Nat.pow 10 (-e).toNat)

def magnitude (u : Nat) : Int := (Nat.toDigits 10 (u * Nat.pow 10 400 / one)).length - 400

def neighbour? (u : Nat) (e : Int) : Option Nat :=
  let num := u * Nat.pow 10 (-e).toNat
  let den := one * Nat.pow 10 e.toNat
  let below := num / den
  let order := if 2 * (num % den) ≤ den then [below, below + 1] else [below + 1, below]
  order.find? fun c => nearest c e == u

def shortest (u : Nat) : Decimal :=
  if u = 0 then ⟨0, 0⟩
  else
    let found := (List.range 17).findSome? fun (n : Nat) =>
      let e := magnitude u - (n + 1)
      (neighbour? u e).map fun c => (⟨c, e⟩ : Decimal)
    found.getD ⟨0, 0⟩

end Double

end Reconcile
