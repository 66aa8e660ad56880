import Reconcile.Algebra
import Reconcile.Width

/-! A counter: a signed 64-bit sum, and operations that add to it. Additions commute, so concurrent
ones cross unchanged; the exclusive counter refuses concurrent additions instead. -/

namespace Reconcile.Counter

def add (sum op : Int) : Except OpError Int :=
  if Width.Signed64 (sum + op) then .ok (sum + op) else .error (.invalid "counter overflow")

def algebra : Algebra Int Int where
  apply := add
  isEmpty op := op == 0
  invert op := -op
  squash first second := [first + second]
  cross l r := .ok (.unchanged l r)

def exclusive : Algebra Int Int :=
  { algebra with cross := fun _ _ => .error (.transform "concurrent edits") }

end Reconcile.Counter
