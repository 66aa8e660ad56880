import Reconcile.Digest.Sha256
import Reconcile.Room.Directory

/-! Dialogs: rooms of two participants whose identifier follows from their keys, so that both of
them arrive at the same room. -/

namespace Reconcile.Room

def orderedPair (a b : String) : String × String := if a ≤ b then (a, b) else (b, a)

/-- The bytes that stand for a pair of keys: the lower one, a zero byte and the higher one. -/
def dialogBytes (a b : String) : List UInt8 :=
  let (low, high) := orderedPair a b
  low.toUTF8.toList ++ 0 :: high.toUTF8.toList

def dialogId (a b : String) : String :=
  "dialog-" ++ String.ofList ((Digest.hex (Digest.Sha256.digest (dialogBytes a b))).take 32)

def createDialog (dir : Directory) (me peer : String) : List Change :=
  let id := dialogId me peer
  if dir.contains id then [] else [.add id (.ofList [me, peer])]

def isDialog (id : String) (room : Room) : Bool :=
  match room.participants.toList with
  | [a, b] => id == dialogId a b
  | _ => false

end Reconcile.Room
