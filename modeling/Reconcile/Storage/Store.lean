import Reconcile.Json.Reader
import Reconcile.Json.Records
import Reconcile.Json.Writer
import Reconcile.Storage.Disk

/-! Keeping the snapshot of a resource in a file. A snapshot is written to a file of its own, which
then takes the place of the one before, so a snapshot is never there in part. -/

namespace Reconcile.Storage

structure Store where
  dir : String
  resource : String
  deriving DecidableEq, Repr

namespace Store

open Json (Coded encode decode?)

variable {σ op : Type} [Coded σ] [Coded op] (s : Store) (d : Disk)

def path : String := Path.join s.dir (s.resource ++ ".json")

def draft : String := Path.withExtension s.path "json.tmp"

/-- Saves a snapshot. A failure leaves the disk as it is then, with a draft on it perhaps. -/
def save (snapshot : Snapshot σ op) : Except SyncError Unit × Disk :=
  match d.makeFolder s.dir with
  | .error _ => (.error .io, d)
  | .ok d =>
    match d.write s.draft (encode snapshot).pretty with
    | .error _ => (.error .io, d)
    | .ok d =>
      match d.rename s.draft s.path with
      | .error _ => (.error .io, d)
      | .ok d => (.ok (), d)

def load : Except SyncError (Option (Snapshot σ op)) :=
  if (d.node? s.path).isNone then .ok none
  else
    match d.read s.path with
    | .error _ => .error .io
    | .ok text =>
      match Json.read? text >>= decode? with
      | some snapshot => .ok (some snapshot)
      | none => .error .serialization

def clear : Except SyncError Unit × Disk :=
  match d.remove s.path with
  | .ok d => (.ok (), d)
  | .error .notFound => (.ok (), d)
  | .error _ => (.error .io, d)

end Store

end Reconcile.Storage
