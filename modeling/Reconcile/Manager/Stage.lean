import Reconcile.Manager.Call

/-! A call from one of its moments to the next. Between two of them anything else may happen to the
manager: the request is on its way, its answer has come and waits to be looked at, listeners are
told, or the call waits before it asks again. -/

namespace Reconcile.Manager

inductive Stage (op : Type)
  | asking (call : Call op)
  | sent (call : Call op)
  | heard (call : Call op) (answer : Except TransportFault call.purpose.Response)
  | settled (next : Next op)

variable {σ op ι : Type} (a : Algebra σ op) (policy : Retry.Policy) (m : Manager σ op ι)

/-- What a call does by itself: the manager after it, what its listeners are told then, and where
the call stands once they have been told. A request is made by an open manager only; one that is on
its way waits for its answer, and a call that is over stays so. -/
def proceed : Stage op → Manager σ op ι × Option (Notice σ ι) × Stage op
  | .asking call =>
    match m.ensureOpen with
    | .error e => (m, none, .settled (.ended (.error e)))
    | .ok () => (m, none, .sent call)
  | .sent call => (m, none, .sent call)
  | .heard call answer =>
    let settled := m.answered a policy call answer
    (settled.manager, settled.notice, .settled settled.next)
  | .settled (.wait _ call) => (m, none, .asking call)
  | .settled .pushAgain => (m, none, .asking m.pushInflight)
  | .settled (.ended result) => (m, none, .settled (.ended result))

end Reconcile.Manager
