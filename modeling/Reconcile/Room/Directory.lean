import Std.Data.ExtTreeMap
import Std.Data.ExtTreeSet
import Reconcile.Diamond

/-! A directory of rooms. A room is added once, and deleting it leaves a tombstone that keeps its
participants; `restore` and `withdraw` undo `delete` and `add`. Adding a live room again with the
same participants and deleting a tombstone are accepted and change nothing. -/

namespace Reconcile

abbrev Room.Participants := Std.ExtTreeSet String

structure Room where
  participants : Room.Participants
  deleted : Bool
  deriving DecidableEq

namespace Room

def isLive (room : Room) : Bool := !room.deleted

abbrev Directory := Std.ExtTreeMap String Room

inductive Change
  | add (id : String) (participants : Participants)
  | delete (id : String)
  | restore (id : String)
  | withdraw (id : String) (participants : Participants)
  deriving DecidableEq

def Change.id : Change → String
  | .add id _ | .delete id | .restore id | .withdraw id _ => id

inductive Fault
  | addDeleted (id : String)
  | addOther (id : String)
  | deleteAbsent (id : String)
  | restoreLive (id : String)
  | restoreAbsent (id : String)
  | withdrawOther (id : String)
  | withdrawAbsent (id : String)
  | withdrawnTwice (id : String)
  | liveAndDeleted (id : String)
  deriving DecidableEq, Repr

def Fault.message : Fault → String
  | .addDeleted id => s!"cannot add room {id}: it is deleted"
  | .addOther id => s!"cannot add room {id}: it exists with different participants"
  | .deleteAbsent id => s!"cannot delete absent room {id}"
  | .restoreLive id => s!"cannot restore room {id}: it is not deleted"
  | .restoreAbsent id => s!"cannot restore absent room {id}"
  | .withdrawOther id => s!"cannot withdraw room {id}: it is deleted or its participants differ"
  | .withdrawAbsent id => s!"cannot withdraw absent room {id}"
  | .withdrawnTwice id => s!"room {id} withdrawn with different participants"
  | .liveAndDeleted id => s!"room {id} cannot be both live and deleted in the same base state"

def Fault.toOpError : Fault → OpError
  | f@(.withdrawnTwice _) | f@(.liveAndDeleted _) => .transform f.message
  | f => .invalid f.message

namespace Change

def applyAt (room : Option Room) : Change → Except Fault (Option Room)
  | .add id participants =>
    match room with
    | none => .ok (some ⟨participants, false⟩)
    | some r =>
      if r.deleted then .error (.addDeleted id)
      else if r.participants = participants then .ok (some r)
      else .error (.addOther id)
  | .delete id =>
    match room with
    | none => .error (.deleteAbsent id)
    | some r => .ok (some { r with deleted := true })
  | .restore id =>
    match room with
    | none => .error (.restoreAbsent id)
    | some r =>
      if r.deleted then .ok (some { r with deleted := false }) else .error (.restoreLive id)
  | .withdraw id participants =>
    match room with
    | none => .error (.withdrawAbsent id)
    | some r =>
      if r.isLive ∧ r.participants = participants then .ok none else .error (.withdrawOther id)

def apply (dir : Directory) (c : Change) : Except Fault Directory :=
  (c.applyAt dir[c.id]?).map fun room => dir.alter c.id fun _ => room

/-- False for a deletion of a tombstone and for an addition of the live room that is there. -/
def changes (dir : Directory) (c : Change) : Bool :=
  match c, dir[c.id]? with
  | .delete _, some room => room.isLive
  | .add _ participants, some room => !(room.isLive && room.participants == participants)
  | _, _ => true

def invert : Change → Change
  | .add id participants => .withdraw id participants
  | .withdraw id participants => .add id participants
  | .delete id => .restore id
  | .restore id => .delete id

@[simp] theorem invert_invert (c : Change) : c.invert.invert = c := by
  cases c <;> rfl

end Change

def live (dir : Directory) : List (String × Room) :=
  dir.toList.filter (·.2.isLive)

def roomsOf (dir : Directory) (key : String) : List String :=
  ((live dir).filter (·.2.participants.contains key)).map (·.1)

def quit (dir : Directory) (id : String) : List Change :=
  match dir[id]? with
  | some room => if room.isLive then [.delete id] else []
  | none => []

end Room

end Reconcile
