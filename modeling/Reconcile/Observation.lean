import Reconcile.Room.Directory

/-! What an observer checks: that replicas agree, and what a directory of rooms looks like. -/

namespace Reconcile

def converged {α : Type} [BEq α] : List α → Bool
  | s :: t :: states => s == t && converged (t :: states)
  | _ => true

namespace Room

def hasLiveRooms (dir : Directory) (ids : List String) : Bool :=
  (live dir).map (·.1) == ids.mergeSort

def isTombstoned (dir : Directory) (id : String) : Bool :=
  dir[id]?.any (·.deleted)

def isMemberOf (dir : Directory) (key : String) (count : Nat) : Bool :=
  (roomsOf dir key).length == count

end Room

end Reconcile
