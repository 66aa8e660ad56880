import Reconcile.Json.Value
import Reconcile.Width

/-! The numbers of JSON. -/

namespace Reconcile.Json

def readDigits (cs : List Char) : Option (List Char × List Char) :=
  match cs.takeWhile Char.isDigit with
  | [] => none
  | ds => some (ds, cs.dropWhile Char.isDigit)

def readFraction : List Char → Option (List Char × List Char)
  | '.' :: rest => readDigits rest
  | cs => some ([], cs)

def readExponent : List Char → Option (Option Int × List Char)
  | e :: rest =>
    if e = 'e' ∨ e = 'E' then
      let (sign, rest) : Int × List Char := match rest with
        | '-' :: rest => (-1, rest)
        | '+' :: rest => (1, rest)
        | rest => (1, rest)
      (readDigits rest).map fun (ds, rest) => (some (sign * Decimal.ofDigits ds), rest)
    else some (none, e :: rest)
  | [] => some (none, [])

def significand (m : Nat) : List Char → Nat × Nat
  | [] => (m, 0)
  | d :: ds =>
    let n := 10 * m + Decimal.ofDigits [d]
    if Width.Unsigned64 n then
      let (whole, count) := significand n ds
      (whole, count + 1)
    else (m, 0)

/-- A number written with digits alone is an integer if 64 bits hold it; zero has no sign. Any other
number keeps the digits that make a significand of 64 bits. Of those after them the ones before the
point count as zeros. -/
def Number.ofDigits? (negative : Bool) (whole fraction : List Char) (exponent : Option Int) :
    Option Number :=
  let m : Int := Decimal.ofDigits whole
  let signed := if negative then -m else m
  let fits := if negative then m ≠ 0 ∧ Width.Signed64 signed else Width.Unsigned64 signed
  if fraction = [] ∧ exponent = none ∧ fits then some (.integer signed)
  else
    let (m, kept) := significand 0 whole
    let (m, places) := significand m fraction
    let e : Int := exponent.getD 0 + (whole.length - kept) - places
    (Double.scale? m e).map fun units => .real ⟨negative, units⟩

def readUnsigned (negative : Bool) (cs : List Char) : Option (Option Number × List Char) := do
  let (whole, rest) ← readDigits cs
  if whole.head? = some '0' ∧ whole.length ≠ 1 then none
  else
    let (fraction, rest) ← readFraction rest
    let (exponent, rest) ← readExponent rest
    return (Number.ofDigits? negative whole fraction exponent, rest)

def readNumber : List Char → Option (Option Number × List Char)
  | '-' :: rest => readUnsigned true rest
  | cs => readUnsigned false cs

end Reconcile.Json
