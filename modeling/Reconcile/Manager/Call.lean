import Reconcile.Manager.Basic
import Reconcile.Retry

/-! The calls of a manager that wait for the server. A call is begun, asks the server as often as it
has to, and is released; in between anything else may happen to the manager. Each of these moments
is one function here, and a call in progress is a value, `Call`. Only one call of a manager is
outstanding at a time: `activity` tells a second one so. -/

namespace Reconcile.Manager

inductive Action
  | checkout
  | sync
  | pull
  deriving DecidableEq, Repr

inductive Purpose (op : Type)
  | checkout
  | pull (since : Revision)
  | push (made : Revision) (batch : List op)
  deriving DecidableEq, Repr

structure Call (op : Type) where
  purpose : Purpose op
  failures : UInt32
  deriving DecidableEq, Repr

variable {σ op ι : Type}

abbrev Purpose.Response : Purpose op → Type
  | .push _ _ => PushOutcome op
  | _ => Pulled op

def Call.first (purpose : Purpose op) : Call op := ⟨purpose, 0⟩

/-- Attempts are counted from one, in 32 bits. -/
def Call.attempt (call : Call op) : Nat := (call.failures + 1).toNat

inductive Start (op : Type)
  | ended (result : Except SyncError Nat)
  | asking (call : Call op)

/-- How a call goes on after an answer: it is over, it asks the same again after a wait, or it pushes
what the inflight batch has become. -/
inductive Next (op : Type)
  | ended (result : Except SyncError Nat)
  | wait (delay : Nat) (call : Call op)
  | pushAgain

structure Settled (σ op ι : Type) where
  manager : Manager σ op ι
  notice : Option (Notice σ ι)
  next : Next op

section
variable (a : Algebra σ op) (m : Manager σ op ι)

def pushInflight : Call op := .first (.push m.revision m.inflight)

def beginCheckout : Manager σ op ι × Start op :=
  match m.ensureOpen with
  | .error e => (m, .ended (.error e))
  | .ok () =>
    if m.activity.isSome then (m, .ended (.error .busy))
    else if m.checkedOut then (m, .ended (.ok 0))
    else ({ m with activity := some .checkingOut }, .asking (.first .checkout))

/-- A rejected operation is reported before anything is pushed. Pending operations become the
inflight batch when there is none; they may squash to nothing. -/
def beginSync : Manager σ op ι × Start op :=
  match m.ensureCheckedOut with
  | .error e => (m, .ended (.error e))
  | .ok () =>
    match m.rejected with
    | e :: _ => ({ m with rejected := [] }, .ended (.error (.invalidOperation e)))
    | [] =>
      if m.activity.isSome then (m, .ended (.ok 0))
      else
        let m := if m.inflight.isEmpty then
            { m with inflight := a.squashAll m.pending, pending := [] }
          else m
        if m.inflight.isEmpty then (m, .ended (.ok 0))
        else ({ m with activity := some .syncing }, .asking m.pushInflight)

def beginPull : Manager σ op ι × Start op :=
  match m.ensureCheckedOut with
  | .error e => (m, .ended (.error e))
  | .ok () =>
    if m.activity.isSome then (m, .ended (.ok 0))
    else ({ m with activity := some .syncing }, .asking (.first (.pull m.revision)))

def start : Action → Manager σ op ι × Start op
  | .checkout => m.beginCheckout
  | .sync => m.beginSync a
  | .pull => m.beginPull

def failed (policy : Retry.Policy) (call : Call op) : TransportFault → Settled σ op ι
  | .network reason =>
    match policy call.attempt with
    | some delay =>
      let again := { call with failures := call.failures + 1 }
      ⟨{ m with retrying := true }, none, .wait delay again⟩
    | none =>
      let result := .error (.retriesExhausted call.attempt reason)
      ⟨{ m with retrying := false }, none, .ended result⟩
  | .auth reason => ⟨{ m with halted := true }, none, .ended (.error (.auth reason))⟩
  | .protocol reason => ⟨m, none, .ended (.error (.protocol reason))⟩

def checkedOutWith (p : Pulled op) : Settled σ op ι :=
  match m.ensureOpen with
  | .error e => ⟨m, none, .ended (.error e)⟩
  | .ok () =>
    let (result, m) := m.rebase a p.operations p.revision
    let m := { m with checkedOut := !m.halted }
    ⟨m, some m.notice, .ended (result.map fun _ => 0)⟩

def pulledSince (since : Revision) (p : Pulled op) : Settled σ op ι :=
  if p.operations.isEmpty ∧ p.revision = since then ⟨m, none, .ended (.ok 0)⟩
  else
    let (result, m) := m.rebase a p.operations p.revision
    ⟨m, some m.notice, .ended (result.map fun _ => p.operations.length)⟩

def pushedWith : PushOutcome op → Settled σ op ι
  | .accepted revision =>
    match m.acknowledge a revision with
    | .error e => ⟨m, none, .ended (.error (.invalidOperation e))⟩
    | .ok m => ⟨m, some m.notice, .ended (.ok 0)⟩
  | .conflict operations revision =>
    let (result, m) := m.rebase a operations revision
    ⟨m, some m.notice,
      match result with
      | .error e => .ended (.error e)
      | .ok () => if m.inflight.isEmpty then .ended (.ok 0) else .pushAgain⟩

def answered (policy : Retry.Policy) (call : Call op)
    (answer : Except TransportFault call.purpose.Response) : Settled σ op ι :=
  match answer with
  | .error fault => m.failed policy call fault
  | .ok response =>
    let m := { m with retrying := false }
    match call.purpose, response with
    | .checkout, p => m.checkedOutWith a p
    | .pull since, p => m.pulledSince a since p
    | .push _ _, outcome => m.pushedWith a outcome

def release : Manager σ op ι := { m with activity := none, retrying := false }

end

end Reconcile.Manager
