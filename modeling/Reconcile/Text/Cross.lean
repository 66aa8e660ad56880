import Reconcile.Algebra
import Reconcile.Text.Squash

/-! Crossing two edits made at the same document. Of two insertions the one further left stays where
it is, and the committed one on a tie. A deletion is split around an insertion made inside it, and
two deletions take from each other what both remove. A replacement crosses as the deletion and the
insertion that it consists of. -/

namespace Reconcile.Text

def shift (pos length : Nat) : Except Fault Nat :=
  if pos + length < positionLimit then .ok (pos + length) else .error (.overflow pos length)

namespace Edit

def crossInsertDelete (insPos : Nat) (ins : List Char) (delPos : Nat) (del : List Char) :
    Except Fault (Diamond Edit) := do
  let shifted ← shift delPos ins.length
  if insPos ≤ delPos then
    return .unchanged (.insert insPos ins) (.delete shifted del)
  else
    let stop ← shift delPos del.length
    if stop ≤ insPos then
      return .unchanged (.insert (insPos - del.length) ins) (.delete delPos del)
    else
      let split := insPos - delPos
      return ⟨[.insert delPos ins],
        [.delete delPos (del.take split), .delete shifted (del.drop split)]⟩

def deleteAfter (pos : Nat) (text : List Char) (otherPos : Nat) (other : List Char) :
    Except Fault Edit := do
  let stop ← shift pos text.length
  let otherStop ← shift otherPos other.length
  if stop ≤ otherPos then
    return .delete pos text
  else if otherStop ≤ pos then
    return .delete (pos - other.length) text
  else
    return .delete (min pos otherPos) (text.take (otherPos - pos) ++ text.drop (otherStop - pos))

/-- Crosses insertions and deletions; replacements are expanded before they get here. -/
def crossSimple : Edit → Edit → Except Fault (Diamond Edit)
  | .insert p t, .insert q u => do
    if p < q then
      return .unchanged (.insert p t) (.insert (← shift q t.length) u)
    else
      return .unchanged (.insert (← shift p u.length) t) (.insert q u)
  | .insert p t, .delete q d => crossInsertDelete p t q d
  | .delete p d, .insert q t => Diamond.swap <$> crossInsertDelete q t p d
  | .delete p d, .delete q e => return .unchanged (← deleteAfter p d q e) (← deleteAfter q e p d)
  | l, r => return .unchanged l r

def simpleAlgebra : Algebra Document Edit where
  apply doc e := (e.apply doc).mapError Fault.toOpError
  isEmpty := isEmpty
  invert := invert
  squash := squash
  cross l r := (crossSimple l r).mapError Fault.toOpError

def isReplace : Edit → Bool
  | .replace .. => true
  | _ => false

def cross (l r : Edit) : Except OpError (Diamond Edit) :=
  if l.isReplace || r.isReplace then simpleAlgebra.transform l.expand r.expand
  else simpleAlgebra.cross l r

end Edit

def algebra : Algebra Document Edit :=
  { Edit.simpleAlgebra with cross := Edit.cross }

end Reconcile.Text
