import Reconcile.Text.Edit
import Reconcile.Width

/-! Squashing two edits made one after the other: text typed into an insertion joins it, text
deleted from an insertion leaves it, neighbouring deletions join, and a deletion followed by an
insertion at its place is a replacement. -/

namespace Reconcile.Text

def positionLimit : Nat := Width.values64

namespace Edit

def insertIfAny (pos : Nat) (text : List Char) : List Edit :=
  if text.isEmpty then [] else [.insert pos text]

def replaceIfNew (pos : Nat) (old new : List Char) : List Edit :=
  if old = new then [] else [.replace pos old new]

def squash : Edit → Edit → List Edit
  | .insert p t, .insert q u =>
    if p ≤ q ∧ q ≤ p + t.length ∧ p + t.length < positionLimit then
      [.insert p (t.take (q - p) ++ u ++ t.drop (q - p))]
    else [.insert p t, .insert q u]
  | .insert p t, .delete q d =>
    if p ≤ q ∧ q - p + d.length ≤ t.length ∧ (t.drop (q - p)).take d.length = d then
      insertIfAny p (t.take (q - p) ++ t.drop (q - p + d.length))
    else [.insert p t, .delete q d]
  | .delete p d, .delete q e =>
    if p = q then [.delete p (d ++ e)]
    else if q + e.length = p then [.delete q (e ++ d)]
    else [.delete p d, .delete q e]
  | .delete p d, .insert q t =>
    if p = q then replaceIfNew p d t else [.delete p d, .insert q t]
  | .replace p old new, .replace q old₂ new₂ =>
    if p = q ∧ new = old₂ then replaceIfNew p old new₂
    else [.replace p old new, .replace q old₂ new₂]
  | first, second => [first, second]

end Edit

end Reconcile.Text
