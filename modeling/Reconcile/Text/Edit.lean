import Reconcile.Diamond
import Reconcile.Text.Quoted

/-! Edits of a plain-text document. A document is the list of its characters, and positions count
characters. A deletion carries the text it removes and applies only where that text stands, which is
what makes every edit invertible. -/

namespace Reconcile.Text

abbrev Document := List Char

inductive Edit
  | insert (pos : Nat) (text : List Char)
  | delete (pos : Nat) (text : List Char)
  | replace (pos : Nat) (old new : List Char)
  deriving DecidableEq, Repr

inductive Fault
  | insertBeyond (pos length : Nat)
  | beyond (pos length : Nat)
  | mismatch (text : List Char) (pos : Nat)
  | overflow (pos length : Nat)
  deriving DecidableEq, Repr

def Fault.message : Fault → String
  | .insertBeyond pos length => s!"cannot insert at {pos}: document has {length} chars"
  | .beyond pos length => s!"position {pos} is past the end of a {length}-char document"
  | .mismatch text pos => "expected " ++ quote text ++ s!" at position {pos}"
  | .overflow pos length => s!"position {pos} + {length} overflows"

def Fault.toOpError : Fault → OpError
  | f@(.overflow ..) => .transform f.message
  | f => .invalid f.message

namespace Edit

/-- The document with `new` in place of `old`, which has to stand at `pos`. -/
def splice (doc : Document) (pos : Nat) (old new : List Char) : Except Fault Document :=
  if doc.length < pos then .error (.beyond pos doc.length)
  else if old.isPrefixOf (doc.drop pos) then
    .ok (doc.take pos ++ new ++ doc.drop (pos + old.length))
  else .error (.mismatch old pos)

def apply (doc : Document) : Edit → Except Fault Document
  | .insert pos text =>
    if doc.length < pos then .error (.insertBeyond pos doc.length)
    else .ok (doc.take pos ++ text ++ doc.drop pos)
  | .delete pos text => splice doc pos text []
  | .replace pos old new => splice doc pos old new

def invert : Edit → Edit
  | .insert pos text => .delete pos text
  | .delete pos text => .insert pos text
  | .replace pos old new => .replace pos new old

def isEmpty : Edit → Bool
  | .insert _ text | .delete _ text => text.isEmpty
  | .replace _ old new => old == new

def expand : Edit → List Edit
  | .replace pos old new => [.delete pos old, .insert pos new]
  | e => [e]

@[simp] theorem invert_invert (e : Edit) : e.invert.invert = e := by
  cases e <;> rfl

end Edit

end Reconcile.Text
