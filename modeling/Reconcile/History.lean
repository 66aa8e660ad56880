import Reconcile.Revision

/-! The history of a resource: the operations that its server has committed, in order. A batch is
committed only if it was made at the latest revision; a stale one is answered with what its client
has missed, and a revision that the history has not reached is refused. -/

namespace Reconcile

inductive TransportFault
  | network (reason : String)
  | auth (reason : String)
  | protocol (reason : String)
  deriving DecidableEq, Repr

def TransportFault.message : TransportFault → String
  | .network reason => "network error: " ++ reason
  | .auth reason => "authentication failed: " ++ reason
  | .protocol reason => "protocol violation: " ++ reason

structure Pulled (op : Type) where
  revision : Revision
  operations : List op
  deriving DecidableEq, Repr

inductive PushOutcome (op : Type)
  | accepted (revision : Revision)
  | conflict (operations : List op) (revision : Revision)
  deriving DecidableEq, Repr

structure History (op : Type) where
  operations : List op
  deriving DecidableEq, Repr

namespace History

variable {op : Type} (h : History op)

def revision : Revision := Revision.genesis.advance h.operations.length

def since (r : Revision) : Except TransportFault (List op) :=
  if r.value ≤ h.operations.length then .ok (h.operations.drop r.value)
  else .error (.protocol
    s!"revision {r.display} is ahead of the server (at {h.revision.display})")

def pull (r : Revision) : Except TransportFault (Pulled op) :=
  (h.since r).map (⟨h.revision, ·⟩)

def push (r : Revision) (batch : List op) :
    Except TransportFault (PushOutcome op) × History op :=
  if r = h.revision then
    let grown : History op := ⟨h.operations ++ batch⟩
    (.ok (.accepted grown.revision), grown)
  else ((h.since r).map (.conflict · h.revision), h)

@[simp] theorem push_revision (batch : List op) :
    h.push h.revision batch =
      (.ok (.accepted (h.revision.advance batch.length)), ⟨h.operations ++ batch⟩) := by
  simp [push, revision, Revision.advance_advance]

theorem push_of_ne {r : Revision} (hr : r ≠ h.revision) (batch : List op) :
    (h.push r batch).2 = h := by
  simp [push, hr]

end History

end Reconcile
