import Reconcile.Diamond

/-! An algebra of operations over one kind of state: what an operation does, whether it does
anything, how it is undone, how two in a row squash and how two concurrent ones cross. Everything
about lists of operations is derived here from those rules. -/

namespace Reconcile

/-- `cross l r` takes `l` as the local operation and `r` as the one already committed, so that
committed operations win a tie. Only applications that `changes` reports are undone by `invert`.
The recursion that crosses two lists goes down to the `depth` that the algebra sets. -/
structure Algebra (σ op : Type) where
  apply : σ → op → Except OpError σ
  isEmpty : op → Bool
  changes : σ → op → Bool := fun _ o => !isEmpty o
  invert : op → op
  squash : op → op → List op
  cross : op → op → Except OpError (Diamond op)
  depth : List op → List op → Nat := fun left right => Diamond.budget (left.length + right.length)

namespace Algebra

variable {σ op : Type} (a : Algebra σ op)

def applyAll (s : σ) (ops : List op) : Except OpError σ :=
  ops.foldlM a.apply s

def reach (s : σ) : List op → σ × Option OpError
  | [] => (s, none)
  | o :: ops =>
    match a.apply s o with
    | .ok t => reach t ops
    | .error e => (s, some e)

@[simp] theorem applyAll_nil (s : σ) : a.applyAll s [] = .ok s := rfl

theorem applyAll_cons (s : σ) (o : op) (ops : List op) :
    a.applyAll s (o :: ops) = a.apply s o >>= (a.applyAll · ops) := rfl

theorem applyAll_append (s : σ) (xs ys : List op) :
    a.applyAll s (xs ++ ys) = a.applyAll s xs >>= (a.applyAll · ys) := by
  simp [applyAll, List.foldlM_append]

theorem applyAll_eq_reach (s : σ) (ops : List op) :
    a.applyAll s ops = match a.reach s ops with
      | (t, none) => .ok t
      | (_, some e) => .error e := by
  induction ops generalizing s with
  | nil => rfl
  | cons o ops ih =>
    rw [applyAll_cons, reach]
    cases a.apply s o with
    | ok t => exact ih t
    | error e => rfl

structure Offer (σ op : Type) where
  state : σ
  kept : List op
  rejected : List OpError

def offer (s : σ) (ops : List op) : Offer σ op :=
  ops.foldl (fun done o =>
    match a.apply done.state o with
    | .ok t => ⟨t, if a.changes done.state o then done.kept ++ [o] else done.kept, done.rejected⟩
    | .error e => { done with rejected := done.rejected ++ [e] }) ⟨s, [], []⟩

def invertAll (ops : List op) : List op :=
  (ops.map a.invert).reverse

theorem invertAll_append (xs ys : List op) :
    a.invertAll (xs ++ ys) = a.invertAll ys ++ a.invertAll xs := by
  simp [invertAll]

def squashInto (kept : List op) (o : op) : List op :=
  if a.isEmpty o then kept else
    match kept.getLast? with
    | none => [o]
    | some last => kept.dropLast ++ (a.squash last o).filter (!a.isEmpty ·)

def squashAll (ops : List op) : List op :=
  ops.foldl a.squashInto []

theorem squashAll_append (xs ys : List op) :
    a.squashAll (xs ++ ys) = ys.foldl a.squashInto (a.squashAll xs) := by
  simp [squashAll]

/-- Crosses two lists with the operations that do nothing left out, by a recursion of at most the
given depth. -/
def transformWithin (depth : Nat) (left right : List op) : Except OpError (Diamond op) :=
  Diamond.ofLists a.isEmpty a.cross depth (left.filter (!a.isEmpty ·)) (right.filter (!a.isEmpty ·))

theorem transformWithin_of_le {n m : Nat} {left right : List op}
    (finished : a.transformWithin n left right ≠ .error .unfinished) (h : n ≤ m) :
    a.transformWithin m left right = a.transformWithin n left right :=
  Diamond.ofLists_of_le finished h

def transform (left right : List op) : Except OpError (Diamond op) :=
  a.transformWithin (a.depth left right) left right

end Algebra

end Reconcile
