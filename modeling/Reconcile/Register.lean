import Std.Data.ExtTreeMap
import Reconcile.Algebra
import Reconcile.Text.Quoted

/-! Registers: one value per key. A write records the value that it replaces, so it can be undone,
and of two concurrent writes to a key the greater value stays; an absent value is the lowest. -/

namespace Reconcile.Register

open Text (Quoted quoted)

variable {K V : Type}

/-- Sets `key` from `before` to `after`; `none` stands for no value. -/
structure Write (K V : Type) where
  key : K
  before : Option V
  after : Option V
  deriving DecidableEq, Repr

namespace Write

def put (key : K) (value : V) : Write K V := ⟨key, none, some value⟩

def invert (w : Write K V) : Write K V := ⟨w.key, w.after, w.before⟩

@[simp] theorem invert_invert (w : Write K V) : w.invert.invert = w := rfl

variable [DecidableEq V]

def isEmpty (w : Write K V) : Bool := w.before == w.after

variable [DecidableEq K]

def squash (first second : Write K V) : List (Write K V) :=
  if first.key = second.key ∧ first.after = second.before then
    [⟨first.key, first.before, second.after⟩].filter (!·.isEmpty)
  else [first, second]

end Write

inductive Fault (K V : Type)
  | unexpected (key : K) (held expected : Option V)
  | unrelated (key : K)
  deriving DecidableEq, Repr

def Fault.message [Quoted K] [Quoted V] : Fault K V → String
  | .unexpected key held expected =>
    "key " ++ quoted key ++ " holds " ++ quoted held ++ ", expected " ++ quoted expected
  | .unrelated key => "concurrent writes to " ++ quoted key ++ " start from different values"

def Fault.toOpError [Quoted K] [Quoted V] : Fault K V → OpError
  | f@(.unexpected ..) => .invalid f.message
  | f@(.unrelated _) => .transform f.message

variable [Ord K] [Std.TransOrd K]

abbrev Registers (K V : Type) [Ord K] := Std.ExtTreeMap K V

namespace Write

variable [DecidableEq V]

def apply (held : Registers K V) (w : Write K V) : Except (Fault K V) (Registers K V) :=
  if held[w.key]? = w.before then .ok (held.alter w.key fun _ => w.after)
  else .error (.unexpected w.key held[w.key]? w.before)

omit [Std.TransOrd K] in
/-- The write of the greater value follows the other one, which is dropped. -/
def cross [Ord V] [DecidableEq K] (l r : Write K V) :
    Except (Fault K V) (Diamond (Write K V)) :=
  if l.key ≠ r.key then .ok (.unchanged l r)
  else if l.before ≠ r.before then .error (.unrelated l.key)
  else if l.after = r.after then .ok ⟨[], []⟩
  else if compare l.after r.after = .gt then .ok ⟨[⟨l.key, r.after, l.after⟩], []⟩
  else .ok ⟨[], [⟨l.key, l.after, r.after⟩]⟩

end Write

def algebra (K V : Type) [Ord K] [Std.TransOrd K] [DecidableEq K] [Quoted K] [Ord V]
    [DecidableEq V] [Quoted V] : Algebra (Registers K V) (Write K V) where
  apply held w := (w.apply held).mapError Fault.toOpError
  isEmpty := Write.isEmpty
  invert := Write.invert
  squash := Write.squash
  cross l r := (l.cross r).mapError Fault.toOpError

end Reconcile.Register
