import Reconcile.Diamond
import Reconcile.History

/-! What a manager, and everything around it, can fail with. -/

namespace Reconcile

inductive SyncError
  | invalidOperation (cause : OpError)
  | network (reason : String)
  | auth (reason : String)
  | protocol (reason : String)
  | retriesExhausted (attempts : Nat) (reason : String)
  | notCheckedOut
  | busy
  | halted
  | closed
  | serialization
  | io
  | config (reason : String)
  deriving DecidableEq, Repr

namespace SyncError

def ofFault : TransportFault → SyncError
  | .network reason => .network reason
  | .auth reason => .auth reason
  | .protocol reason => .protocol reason

def isFatal : SyncError → Bool
  | .auth _ | .halted | .closed | .protocol _ => true
  | _ => false

def message : SyncError → String
  | .invalidOperation cause => cause.message
  | .network reason => "Network error: " ++ reason
  | .auth reason => "Unauthorized: " ++ reason
  | .protocol reason => "Protocol violation: " ++ reason
  | .retriesExhausted attempts reason => s!"Gave up after {attempts} failed attempts: " ++ reason
  | .notCheckedOut => "Resource has not been checked out"
  | .busy => "Another checkout or sync is in progress"
  | .halted => "Synchronization halted until re-authentication"
  | .closed => "State manager is closed"
  | .serialization => "Serialization error"
  | .io => "IO error"
  | .config reason => "Configuration error: " ++ reason

end SyncError

end Reconcile
