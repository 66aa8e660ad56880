import Reconcile.Decimal
import Reconcile.Numeral
import Reconcile.Width

/-! TOML numbers. Integers have 64 bits and a sign, and a single underscore may stand between two
digits. -/

namespace Reconcile.Toml

inductive Real
  | finite (x : Decimal)
  | infinite (negative : Bool)
  | nan
  deriving DecidableEq, Repr

def readGroups (isDigit : Char → Bool) : List Char → List Char × List Char
  | '_' :: c :: rest =>
    if isDigit c then
      let (ds, rest) := readGroups isDigit rest
      (c :: ds, rest)
    else ([], '_' :: c :: rest)
  | c :: rest =>
    if isDigit c then
      let (ds, rest) := readGroups isDigit rest
      (c :: ds, rest)
    else ([], c :: rest)
  | [] => ([], [])

def readGrouped (isDigit : Char → Bool) : List Char → Option (List Char × List Char)
  | c :: rest =>
    if isDigit c then
      let (ds, rest) := readGroups isDigit rest
      some (c :: ds, rest)
    else none
  | [] => none

def readSign : List Char → Bool × List Char
  | '-' :: rest => (true, rest)
  | '+' :: rest => (false, rest)
  | cs => (false, cs)

def signed (negative : Bool) (n : Nat) : Int := if negative then -n else n

def readWhole (cs : List Char) : Option (List Char × List Char) := do
  let (ds, rest) ← readGrouped Char.isDigit cs
  if ds.head? = some '0' ∧ ds.length ≠ 1 then none else return (ds, rest)

def readRadix (base : Nat) (cs : List Char) : Option (Int × List Char) := do
  let (ds, rest) ← readGrouped (Numeral.isDigit base) cs
  return ((← Numeral.value? base ds : Nat), rest)

def readAnyInteger : List Char → Option (Int × List Char)
  | '0' :: 'x' :: rest => readRadix 16 rest
  | '0' :: 'o' :: rest => readRadix 8 rest
  | '0' :: 'b' :: rest => readRadix 2 rest
  | cs => do
    let (negative, rest) := readSign cs
    let (ds, rest) ← readWhole rest
    return (signed negative (Decimal.ofDigits ds), rest)

def readInteger (cs : List Char) : Option (Int × List Char) := do
  let (n, rest) ← readAnyInteger cs
  if Width.Signed64 n then return (n, rest) else none

def readPlaces : List Char → Option (List Char × List Char)
  | '.' :: rest => readGrouped Char.isDigit rest
  | cs => some ([], cs)

def readExponent : List Char → Option (Int × List Char)
  | 'e' :: rest | 'E' :: rest => do
    let (negative, rest) := readSign rest
    let (ds, rest) ← readGrouped Char.isDigit rest
    return (signed negative (Decimal.ofDigits ds), rest)
  | cs => some (0, cs)

/-- A number beyond the doubles is refused on the positive side and infinite on the other. -/
def Real.ofDecimal? (negative : Bool) (x : Decimal) : Option Real :=
  if x.isFinite then some (.finite x)
  else if negative then some (.infinite true)
  else none

def readDecimal (cs : List Char) : Option (Real × List Char) := do
  let (negative, rest) := readSign cs
  let (whole, tail) ← readWhole rest
  let (places, rest) ← readPlaces tail
  let (exponent, rest) ← readExponent rest
  if rest.length = tail.length then none
  else
    let mantissa := signed negative (Decimal.ofDigits (whole ++ places))
    return (← Real.ofDecimal? negative ⟨mantissa, exponent - places.length⟩, rest)

def readSpecial (cs : List Char) : Option (Real × List Char) :=
  let (negative, rest) := readSign cs
  match rest with
  | 'i' :: 'n' :: 'f' :: rest => some (.infinite negative, rest)
  | 'n' :: 'a' :: 'n' :: rest => some (.nan, rest)
  | _ => none

def readReal (cs : List Char) : Option (Real × List Char) := readDecimal cs <|> readSpecial cs

end Reconcile.Toml
