/-! Revisions: how many operations have been committed. Revision zero is genesis. -/

namespace Reconcile

structure Revision where
  value : Nat
  deriving DecidableEq, Repr

namespace Revision

def genesis : Revision := ⟨0⟩

instance : Ord Revision := ⟨fun r s => compare r.value s.value⟩

def advance (r : Revision) (count : Nat) : Revision := ⟨r.value + count⟩

def display (r : Revision) : String := s!"r{r.value}"

@[simp] theorem advance_zero (r : Revision) : r.advance 0 = r := rfl

theorem advance_advance (r : Revision) (m n : Nat) :
    (r.advance m).advance n = r.advance (m + n) := by
  simp [advance, Nat.add_assoc]

end Revision

end Reconcile
