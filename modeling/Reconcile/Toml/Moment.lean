import Reconcile.Decimal

/-! Dates and times of day as TOML writes them. A date has a day that its month has, a minute may
have a leap second, and a date with a time may give its distance from universal time. -/

namespace Reconcile.Toml

structure Date where
  year : Nat
  month : Nat
  day : Nat
  deriving DecidableEq, Repr

structure Time where
  hour : Nat
  minute : Nat
  second : Nat
  /-- The digits after the decimal point of the seconds. -/
  fraction : List Char
  deriving DecidableEq, Repr

inductive Moment
  | date (d : Date)
  | time (t : Time)
  /-- A date and time, with the minutes ahead of universal time if they are known. -/
  | full (d : Date) (t : Time) (offset : Option Int)
  deriving DecidableEq, Repr

def isLeapYear (y : Nat) : Bool := y % 4 = 0 ∧ (y % 100 ≠ 0 ∨ y % 400 = 0)

def daysIn (year : Nat) : Nat → Nat
  | 2 => if isLeapYear year then 29 else 28
  | 4 | 6 | 9 | 11 => 30
  | month => if 1 ≤ month ∧ month ≤ 12 then 31 else 0

def Date.isValid (d : Date) : Bool := 1 ≤ d.day ∧ d.day ≤ daysIn d.year d.month

def Time.isValid (t : Time) : Bool := t.hour ≤ 23 ∧ t.minute ≤ 59 ∧ t.second ≤ 60

def after? (c : Char) : List Char → Option (List Char)
  | d :: rest => if d = c then some rest else none
  | [] => none

def readDigits (width : Nat) (cs : List Char) : Option (Nat × List Char) :=
  let ds := cs.take width
  if ds.length = width ∧ ds.all Char.isDigit then some (Decimal.ofDigits ds, cs.drop width)
  else none

def readDate (cs : List Char) : Option (Date × List Char) := do
  let (year, rest) ← readDigits 4 cs
  let (month, rest) ← readDigits 2 (← after? '-' rest)
  let (day, rest) ← readDigits 2 (← after? '-' rest)
  let d : Date := ⟨year, month, day⟩
  if d.isValid then return (d, rest) else none

def readFraction : List Char → List Char × List Char
  | '.' :: rest =>
    match rest.takeWhile Char.isDigit with
    | [] => ([], '.' :: rest)
    | ds => (ds, rest.dropWhile Char.isDigit)
  | cs => ([], cs)

def readTime (cs : List Char) : Option (Time × List Char) := do
  let (hour, rest) ← readDigits 2 cs
  let (minute, rest) ← readDigits 2 (← after? ':' rest)
  let (second, rest) ← readDigits 2 (← after? ':' rest)
  let (fraction, rest) := readFraction rest
  let t : Time := ⟨hour, minute, second, fraction⟩
  if t.isValid then return (t, rest) else none

def readMinutes (cs : List Char) : Option (Int × List Char) := do
  let (hour, rest) ← readDigits 2 cs
  let (minute, rest) ← readDigits 2 (← after? ':' rest)
  if hour ≤ 23 ∧ minute ≤ 59 then return (60 * hour + minute, rest) else none

def readOffset : List Char → Option (Option Int × List Char)
  | 'Z' :: rest | 'z' :: rest => some (some 0, rest)
  | '+' :: rest => (readMinutes rest).map fun (m, rest) => (some m, rest)
  | '-' :: rest => (readMinutes rest).map fun (m, rest) => (some (-m), rest)
  | cs => some (none, cs)

def readTimeAfterDate : List Char → Option (Time × List Char)
  | 'T' :: rest | 't' :: rest | ' ' :: rest => readTime rest
  | _ => none

def readMoment (cs : List Char) : Option (Moment × List Char) :=
  match readDate cs with
  | some (d, rest) =>
    match readTimeAfterDate rest with
    | some (t, rest) => (readOffset rest).map fun (offset, rest) => (.full d t offset, rest)
    | none => some (.date d, rest)
  | none => (readTime cs).map fun (t, rest) => (.time t, rest)

end Reconcile.Toml
