import Reconcile.Algebra
import Reconcile.Listener
import Reconcile.Manager.Error

/-! The manager of one resource at one client. It holds the committed state at the last known
revision, the batch that is being pushed, the operations added since, and the working state that
these lead to: `state` is `base` followed by `inflight` and `pending`. Everything here happens at
once; the calls that wait for the server are in `Manager.Call`. -/

namespace Reconcile

structure Snapshot (σ op : Type) where
  revision : Revision
  base : σ
  inflight : List op
  pending : List op
  deriving DecidableEq, Repr

def Snapshot.unsynced {σ op : Type} (s : Snapshot σ op) : Nat :=
  s.inflight.length + s.pending.length

structure Notice (σ ι : Type) where
  state : σ
  receivers : List ι

def Notice.turns {σ ι : Type} (n : Notice σ ι) : List (ι × σ) := n.receivers.map (·, n.state)

namespace Manager

inductive Activity
  | checkingOut
  | syncing
  deriving DecidableEq, Repr

inductive Status
  | uninitialized
  | checkingOut
  | ready
  | syncing
  | retrying
  | halted
  | closed
  deriving DecidableEq, Repr

end Manager

structure Manager (σ op ι : Type) where
  base : σ
  state : σ
  revision : Revision
  inflight : List op
  pending : List op
  rejected : List OpError
  listeners : Listener.Registry ι
  activity : Option Manager.Activity
  retrying : Bool
  checkedOut : Bool
  halted : Bool
  closed : Bool

namespace Manager

variable {σ op ι : Type} (a : Algebra σ op) (m : Manager σ op ι)

def new (initial : σ) : Manager σ op ι where
  base := initial
  state := initial
  revision := .genesis
  inflight := []
  pending := []
  rejected := []
  listeners := .empty
  activity := none
  retrying := false
  checkedOut := false
  halted := false
  closed := false

def status : Status :=
  if m.closed then .closed
  else if m.halted then .halted
  else if m.retrying then .retrying
  else match m.activity with
    | some .checkingOut => .checkingOut
    | some .syncing => .syncing
    | none => if m.checkedOut then .ready else .uninitialized

def ensureOpen : Except SyncError Unit :=
  if m.closed then .error .closed
  else if m.halted then .error .halted
  else .ok ()

def ensureCheckedOut : Except SyncError Unit := do
  m.ensureOpen
  if m.checkedOut then .ok () else .error .notCheckedOut

def notice : Notice σ ι := ⟨m.state, m.listeners.receivers⟩

def resetTo (base : σ) (inflight pending : List op) : Except OpError (Manager σ op ι) := do
  let state ← a.applyAll (← a.applyAll base inflight) pending
  return { m with base, state, inflight, pending }

def transformQueues (committed : List op) : Except OpError (List op × List op) := do
  let inflight ← a.transform m.inflight committed
  let pending ← a.transform m.pending inflight.right
  return (inflight.left, pending.left)

/-- Moves the queues on top of what others committed. Committed operations that do not apply halt
the manager; local ones that cannot follow are discarded, and the error is reported once. -/
def rebase (committed : List op) (revision : Revision) :
    Except SyncError Unit × Manager σ op ι :=
  match a.applyAll m.base committed with
  | .error e =>
    (.error (.protocol
      (s!"committed operations do not apply at {m.revision.display}: " ++ e.message)),
      { m with halted := true })
  | .ok base =>
    match m.transformQueues a committed >>= fun (inflight, pending) =>
        m.resetTo a base inflight pending with
    | .ok rebased => (.ok (), { rebased with revision })
    | .error e =>
      (.error (.invalidOperation e),
        { m with base, state := base, revision, inflight := [], pending := [] })

def acknowledge (revision : Revision) : Except OpError (Manager σ op ι) := do
  let base ← a.applyAll m.base m.inflight
  return { m with base, inflight := [], revision }

/-- Applies local operations. Those that change nothing are not queued, and those that fail are
remembered for the next sync. -/
def add (ops : List op) : Manager σ op ι × Option (Notice σ ι) :=
  if m.closed then (m, none)
  else
    let done := a.offer m.state ops
    let added := { m with
      state := done.state
      pending := m.pending ++ done.kept
      rejected := m.rejected ++ done.rejected }
    (added, if done.kept.isEmpty then none else some added.notice)

def reset : Except SyncError Nat × Manager σ op ι × Option (Notice σ ι) :=
  if m.closed then (.error .closed, m, none)
  else
    let m := { m with rejected := [] }
    if m.pending.isEmpty then (.ok 0, m, none)
    else
      match a.applyAll m.state (a.invertAll m.pending) with
      | .error e => (.error (.invalidOperation e), m, none)
      | .ok state =>
        let undone := { m with state, pending := [] }
        (.ok m.pending.length, undone, some undone.notice)

def snapshot : Except SyncError (Snapshot σ op) := do
  m.ensureCheckedOut
  return ⟨m.revision, m.base, m.inflight, m.pending⟩

def restore (s : Snapshot σ op) : Except SyncError Unit × Manager σ op ι × Option (Notice σ ι) :=
  match m.ensureOpen with
  | .error e => (.error e, m, none)
  | .ok () =>
    if m.activity.isSome then (.error .busy, m, none)
    else
      match m.resetTo a s.base s.inflight s.pending with
      | .error e => (.error (.invalidOperation e), m, none)
      | .ok restored =>
        let restored := { restored with
          revision := s.revision
          rejected := []
          checkedOut := true }
        (.ok (), restored, some restored.notice)

def close : Manager σ op ι :=
  if m.closed then m else { m with closed := true, listeners := m.listeners.clear }

def listen [DecidableEq ι] (listener : ι) : Nat × Manager σ op ι :=
  let (id, listeners) := m.listeners.add listener
  (id, { m with listeners })

def unlisten (id : Nat) : Bool × Manager σ op ι :=
  let (found, listeners) := m.listeners.remove id
  (found, { m with listeners })

end Manager

end Reconcile
