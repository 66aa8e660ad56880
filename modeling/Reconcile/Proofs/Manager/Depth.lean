import Reconcile.Manager.Call
import Reconcile.Proofs.Recursion

/-! How deep the recursion over two lists goes is up to the algebra, and plays no part in what an
answer does to a manager: two depths that cut no recursion off lead to the same. -/

namespace Reconcile

variable {σ op ι : Type} {a : Algebra σ op} {depth : List op → List op → Nat}

namespace Algebra

end Algebra

namespace Manager

variable {m : Manager σ op ι} {call : Call op} {committed : List op} {revision : Revision}

/-- A recursion over two lists was cut off before its end. -/
def Next.CutOff (next : Next op) : Prop :=
  next = .ended (.error (.invalidOperation .unfinished))

deriving instance DecidableEq for Next

instance [DecidableEq op] (next : Next op) : Decidable next.CutOff :=
  inferInstanceAs (Decidable (_ = _))

end Manager

end Reconcile
