/-! Retry policies: how long to wait, in milliseconds, after a number of failed attempts. -/

namespace Reconcile.Retry

/-- The wait after the `n`-th failure in a row; `none` gives up. -/
abbrev Policy := Nat → Option Nat

structure FixedDelay where
  delay : Nat
  maxAttempts : Option Nat
  deriving DecidableEq, Repr

namespace FixedDelay

def default : FixedDelay := ⟨1000, none⟩

def immediate : FixedDelay := ⟨0, none⟩

def nextDelay (p : FixedDelay) : Policy := fun attempt =>
  match p.maxAttempts with
  | some n => if n ≤ attempt then none else some p.delay
  | none => some p.delay

end FixedDelay

def ofList (delays : List (Option Nat)) : Policy := fun attempt =>
  if attempt = 0 then none else (delays[attempt - 1]?).join

end Reconcile.Retry
