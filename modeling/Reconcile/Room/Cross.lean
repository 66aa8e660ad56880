import Reconcile.Algebra
import Reconcile.Room.Directory

/-! Squashing and crossing changes of a room directory. Concurrent creations with different
participants are settled by the committed one; a tombstone or a withdrawal prevails over a
concurrent creation, and a withdrawal over a concurrent tombstone. -/

namespace Reconcile.Room.Change

def squashSame : Change → Change → List Change
  | .add id a, .withdraw id₂ b => if a = b then [] else [.add id a, .withdraw id₂ b]
  | .withdraw id a, .add id₂ b => if a = b then [] else [.withdraw id a, .add id₂ b]
  | .delete _, .restore _ => []
  | .restore _, .delete _ => []
  | .add id a, .add id₂ b => if a = b then [.add id a] else [.add id a, .add id₂ b]
  | .delete id, .delete _ => [.delete id]
  | first, second => [first, second]

def squash (first second : Change) : List Change :=
  if first.id = second.id then squashSame first second else [first, second]

def crossSame : Change → Change → Except Fault (Diamond Change)
  | .add id a, .add id₂ b =>
    if a = b then .ok ⟨[], []⟩ else .ok ⟨[], [.withdraw id a, .add id₂ b]⟩
  | .add _ _, .delete id => .ok ⟨[], [.delete id]⟩
  | .add _ _, .withdraw id b => .ok ⟨[], [.withdraw id b]⟩
  | .add id _, .restore _ => .error (.liveAndDeleted id)
  | .delete id, .add _ _ => .ok ⟨[.delete id], []⟩
  | .delete _, .delete _ => .ok ⟨[], []⟩
  | .delete id, .withdraw id₂ b => .ok ⟨[], [.restore id, .withdraw id₂ b]⟩
  | .delete id, .restore _ => .ok ⟨[.delete id], []⟩
  | .withdraw id a, .add _ _ => .ok ⟨[.withdraw id a], []⟩
  | .withdraw id a, .delete _ => .ok ⟨[.restore id, .withdraw id a], []⟩
  | .withdraw id a, .withdraw _ b =>
    if a = b then .ok ⟨[], []⟩ else .error (.withdrawnTwice id)
  | .withdraw id _, .restore _ => .error (.liveAndDeleted id)
  | .restore id, .add _ _ => .error (.liveAndDeleted id)
  | .restore _, .delete id => .ok ⟨[], [.delete id]⟩
  | .restore id, .withdraw _ _ => .error (.liveAndDeleted id)
  | .restore _, .restore _ => .ok ⟨[], []⟩

def cross (l r : Change) : Except Fault (Diamond Change) :=
  if l.id = r.id then crossSame l r else .ok (.unchanged l r)

end Reconcile.Room.Change

namespace Reconcile.Room

/-- No change is empty by itself: whether one is redundant depends on the directory. -/
def algebra : Algebra Directory Change where
  apply dir c := (c.apply dir).mapError Fault.toOpError
  isEmpty _ := false
  changes dir c := c.changes dir
  invert := Change.invert
  squash := Change.squash
  cross l r := (l.cross r).mapError Fault.toOpError

end Reconcile.Room
